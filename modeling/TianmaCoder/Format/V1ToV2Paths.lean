import TianmaCoder.Format.V1ToV2Moves

/-!
# Steps of the v1-to-v2 stage as moves

Every transition of the stage is a path of moves between the views of its states, and the
moves are allowed exactly when the step is: the event does not cite itself, a legacy goal
change does not overtake what is held back, and a packed row does not continue an attempt
across the inherited cut.

## Main definitions

* `State.view` — the view of a state.
* `StepOk` — what a step must not do, read off the state before it.

## Main results

* `path_transformStep`, `path_run` — steps and runs as paths of moves.
-/

namespace TianmaCoder

open Checked

namespace V1ToV2

variable {header : ReleasedV1Header}

/-- The events held back behind the pending attempt. -/
def State.held (s : State) : List SessionEvent := (s.pending.map (·.afterLastChunk)).getD []

/-- The view of a state, with what has arrived and the next source seq. -/
def State.view (s : State) (arrived : List (ℕ × List (Option Json))) (next : ℕ) : View where
  target := s.target
  group := s.pending.map (·.group)
  held := s.held
  arrived := arrived
  next := next

/-- A path of moves. -/
abbrev Moves (header : ReleasedV1Header) (v v' : View) (P : Prop) : Prop :=
  GuardedPath (View.move header) (Allowed header) v v' P

theorem Moves.wellFormed {v v' : View} {P : Prop} (h : Moves header v v' P)
    (hv : v.WellFormed) : v'.WellFormed := by
  obtain ⟨ms, hms, _⟩ := h
  exact hv.run hms

/-! ## The parts of an event -/

/-- The event whose references are kept: a message loses its chunk citations. -/
def surviving (event : SessionEvent) : SessionEvent :=
  if event.type = .assistantMessage then { event with sourceEventSeqs := none } else event

/-- A legacy user message that is split in two. -/
def CarriesGoalChange (event : SessionEvent) : Prop :=
  ∃ parts, splitLegacyGoalChange event = .ok (some parts)

/-- The event neither cites itself nor overtakes what is held back. -/
structure EventOk (header : ReleasedV1Header) (s : State) (event : SessionEvent) : Prop where
  cites : event.type ≠ .assistantChunk → ¬ CitesItself (surviving event)
  goal : CarriesGoalChange event →
    s.held = [] ∧ Uncrossed header (s.pending.map (·.group)) event.seq

/-- What a step must not do. -/
def StepOk (header : ReleasedV1Header) (s : State) : SourceStep → Prop
  | .event event => EventOk header s event
  | .chunkRun run =>
    ∀ pending, s.pending = some pending →
      pending.group.continues (some (.nat run.turn)) (some (.nat run.step)) = true →
      Uncrossed header (some pending.group) run.firstSeq

theorem uncrossed_none (position : ℕ) : Uncrossed header none position := nofun

theorem uncrossed_some {group : AttemptGroup} {position : ℕ} :
    Uncrossed header (some group) position
      ↔ (group.start < header.sourceCut ↔ position < header.sourceCut) := by
  simp [Uncrossed]

/-- A position between the start and one on the side of the start is on that side. -/
theorem Uncrossed.between {group : AttemptGroup} {position far : ℕ}
    (h : Uncrossed header (some group) far) (hstart : group.start ≤ position)
    (hfar : position ≤ far) : Uncrossed header (some group) position := by
  rw [uncrossed_some] at h ⊢
  omega

/-! ## Emission -/

variable {event : SessionEvent}

theorem move_generate {v : View} {target : Target} (hreferences : references event = [])
    (htype : event.type ≠ .sessionEndSeed)
    (h : v.target.emitGenerated header v.next (.generated v.next) event = .ok target) :
    v.move header (.generate event) = .ok { v with target } := by
  simp [View.move, hreferences, htype, h]

theorem move_release {v : View} {position : ℕ} {target : Target}
    (hevent : v.held[position]? = some event) (h : v.target.emitSource header event = .ok target) :
    v.move header (.release position)
      = .ok { v with target, held := v.held.eraseIdx position } := by
  simp [View.move, hevent, h]

theorem path_release {held : List SessionEvent} {t t' : Target}
    (h : held.foldlM (Target.emitSource header) t = .ok t') (group : Option AttemptGroup)
    (arrived : List (ℕ × List (Option Json))) (next : ℕ) :
    Moves header ⟨t, group, held, arrived, next⟩ ⟨t', group, [], arrived, next⟩
      (∀ event ∈ held, Uncrossed header group event.seq) := by
  induction held generalizing t with
  | nil =>
    cases h
    exact GuardedPath.refl.congr (by simp)
  | cons event held ih =>
    rw [List.foldlM_cons] at h
    obtain ⟨u, hu, hrest⟩ := bind_ok h
    have hmove : View.move header ⟨t, group, event :: held, arrived, next⟩ (.release 0)
        = .ok ⟨u, group, held, arrived, next⟩ := move_release rfl hu
    refine ((GuardedPath.single hmove).trans (ih hrest)).congr ?_
    simp [Allowed]

theorem path_emitNow {t t' : Target} (h : t.emitSource header event = .ok t')
    (arrived : List (ℕ × List (Option Json))) :
    Moves header ⟨t, none, [], arrived, event.seq⟩
      ⟨t', none, [], arrived ++ [signature event], event.seq + 1⟩ (¬ CitesItself event) := by
  have harrive : View.move header ⟨t, none, [], arrived, event.seq⟩ (.arrive event)
      = .ok ⟨t, none, [event], arrived ++ [signature event], event.seq + 1⟩ := by
    simp [View.move, assertNext]
  refine ((GuardedPath.single harrive).trans (path_release (by simp [h]) none _ _)).congr ?_
  simp [Allowed, uncrossed_none]

/-! ## Settling -/

variable {s : State}

theorem state_view_of_none (h : s.pending = none) (arrived : List (ℕ × List (Option Json)))
    (next : ℕ) : s.view arrived next = ⟨s.target, none, [], arrived, next⟩ := by
  simp [State.view, State.held, h]

variable {pending : StreamingAttempt}

theorem state_view_of_some (h : s.pending = some pending) (arrived : List (ℕ × List (Option Json)))
    (next : ℕ) :
    s.view arrived next
      = ⟨s.target, some pending.group, pending.afterLastChunk, arrived, next⟩ := by
  simp [State.view, State.held, h]

variable {s' : State}

theorem flushBuffered_ok (h : flushBuffered header s pending = .ok s') :
    ∃ target, pending.afterLastChunk.foldlM (Target.emitSource header) s.target = .ok target ∧
      s' = { s with target, pending := some { pending with afterLastChunk := [] } } := by
  obtain ⟨target, htarget, hpure⟩ := bind_ok h
  cases hpure
  exact ⟨target, htarget, rfl⟩

theorem path_flushBuffered (hpending : s.pending = some pending)
    (h : flushBuffered header s pending = .ok s') (arrived : List (ℕ × List (Option Json)))
    (next : ℕ) :
    Moves header (s.view arrived next) (s'.view arrived next)
      (∀ event ∈ pending.afterLastChunk, Uncrossed header (some pending.group) event.seq) := by
  obtain ⟨target, htarget, hs'⟩ := flushBuffered_ok h
  subst hs'
  rw [state_view_of_some hpending]
  exact path_release htarget (some pending.group) arrived next

theorem finishAttempt_ok (h : finishAttempt header s = .ok s') :
    s'.pending = none ∧ s'.legacyTurns = s.legacyTurns ∧ s'.lastTime = s.lastTime := by
  unfold finishAttempt at h
  split at h
  · next hnone =>
      cases h
      exact ⟨hnone, rfl, rfl⟩
  · obtain ⟨target, _, h⟩ := bind_ok h
    obtain ⟨flushed, hflush, h⟩ := bind_ok h
    cases h
    obtain ⟨_, _, hflushed⟩ := flushBuffered_ok hflush
    subst hflushed
    exact ⟨rfl, rfl, rfl⟩

/-- Settling the pending attempt is always allowed. -/
theorem path_finishAttempt (h : finishAttempt header s = .ok s')
    (arrived : List (ℕ × List (Option Json))) (next : ℕ) :
    Moves header (s.view arrived next) (s'.view arrived next) True := by
  unfold finishAttempt at h
  split at h
  · cases h
    exact .refl
  · next pending hpending =>
      obtain ⟨target, htarget, h⟩ := bind_ok h
      obtain ⟨flushed, hflush, h⟩ := bind_ok h
      cases h
      obtain ⟨target', htarget', hflushed⟩ := flushBuffered_ok hflush
      subst hflushed
      have hsettle : View.move header (s.view arrived next) .settle
          = .ok ⟨target, none, pending.afterLastChunk, arrived, next⟩ := by
        rw [state_view_of_some hpending]
        simp [View.move, htarget]
      refine ((GuardedPath.single hsettle).trans (path_release htarget' none arrived next)).congr ?_
      simp [Allowed, uncrossed_none]

/-- What settling or flushing leaves for a chunk at these coordinates. -/
structure Ready (s : State) (turn step : Coordinate) : Prop where
  held : s.held = []
  attempt : (s.attempt turn step).afterLastChunk = []
  join : joinGroup (s.pending.map (·.group)) turn step = .ok (s.attempt turn step).group

theorem ready_of_none (h : s.pending = none) (turn step : Coordinate) :
    Ready s turn step where
  held := by simp [State.held, h]
  attempt := by simp [State.attempt, h]
  join := by simp [State.attempt, joinGroup, h]

theorem settleOrFlush_ready {turn step : Coordinate} (h : settleOrFlush header s turn step = .ok s') :
    Ready s' turn step := by
  unfold settleOrFlush at h
  split at h
  · next hnone =>
      cases h
      exact ready_of_none hnone turn step
  · next pending hpending =>
      split at h
      · next hcontinues =>
          obtain ⟨target, _, hs'⟩ := flushBuffered_ok h
          subst hs'
          constructor
          · rfl
          · rfl
          · simp [State.attempt, joinGroup, hcontinues]
      · exact ready_of_none (finishAttempt_ok h).1 turn step

variable {arrived : List (ℕ × List (Option Json))}

/-- Before a chunk at `far`, settling or flushing crosses the cut only where the chunk
continues an attempt across it. -/
theorem path_settleOrFlush {turn step : Coordinate} (h : settleOrFlush header s turn step = .ok s')
    {far : ℕ} (hview : (s.view arrived far).WellFormed) :
    ∃ P, Moves header (s.view arrived far) (s'.view arrived far) P ∧
      (Uncrossed header (s'.pending.map (·.group)) far → P) ∧
      (Uncrossed header (s'.pending.map (·.group)) far
        ↔ ∀ pending, s.pending = some pending → pending.group.continues turn step = true →
          Uncrossed header (some pending.group) far) := by
  unfold settleOrFlush at h
  split at h
  · next hnone =>
      cases h
      refine ⟨True, .refl, fun _ => trivial, ?_⟩
      simp [hnone, uncrossed_none]
  · next pending hpending =>
      rw [state_view_of_some hpending] at hview
      split at h
      · next hcontinues =>
          refine ⟨_, path_flushBuffered hpending h arrived far, ?_, ?_⟩
          · intro hfar event hevent
            obtain ⟨target, _, hs'⟩ := flushBuffered_ok h
            subst hs'
            have hbelow := hview.below event hevent
            have hbehind := hview.start_lt_held rfl hevent
            exact hfar.between (Nat.le_of_lt hbehind) (Nat.le_of_lt hbelow)
          · obtain ⟨target, _, hs'⟩ := flushBuffered_ok h
            subst hs'
            simp [hpending, hcontinues]
      · next hstops =>
          have hnone := (finishAttempt_ok h).1
          refine ⟨_, path_finishAttempt h arrived far, fun _ => trivial, ?_⟩
          simp [hnone, hpending, hstops, uncrossed_none]

/-! ## Chunks -/

/-- A chunk event is always allowed: the attempt it joins is checked against the cut. -/
theorem path_transformChunk (h : transformChunk header s event = .ok s')
    (hview : (s.view arrived event.seq).WellFormed) :
    Moves header (s.view arrived event.seq) (s'.view arrived (event.seq + 1)) True := by
  unfold transformChunk at h
  obtain ⟨turn, hturn, h⟩ := bind_ok h
  obtain ⟨step, hstep, h⟩ := bind_ok h
  obtain ⟨ready, hready, h⟩ := bind_ok h
  obtain ⟨_, hcut, h⟩ := bind_ok h
  obtain ⟨group, hpush, h⟩ := bind_ok h
  cases h
  have hr := settleOrFlush_ready hready
  obtain ⟨P, hpath, hP, _⟩ := path_settleOrFlush hready hview
  have hchunk : View.move header (ready.view arrived event.seq) (.chunk event)
      = .ok (State.view
          { ready with pending := some { ready.attempt turn step with group } }
          arrived (event.seq + 1)) := by
    simp only [View.move, State.view, hr.held, assertNext, hturn, hstep, hr.join, hcut, hpush,
      if_true, ok_bind, pure_eq]
    simp [State.held, hr.attempt]
  have huncrossed : Uncrossed header (ready.pending.map (·.group)) event.seq :=
    (hpath.wellFormed hview).uncrossed_of_cut hr.join hcut
  refine (hpath.trans (GuardedPath.single hchunk)).congr ?_
  simp [Allowed, hP huncrossed]

/-- A packed row is allowed when it does not continue an attempt across the cut. -/
theorem path_transformReleasedRun {run : ReleasedAssistantChunkRun}
    (h : transformReleasedRun header s run = .ok s')
    (hview : (s.view arrived run.firstSeq).WellFormed) :
    Moves header (s.view arrived run.firstSeq)
      (s'.view arrived (run.firstSeq + run.eventCount)) (StepOk header s (.chunkRun run)) := by
  unfold transformReleasedRun at h
  obtain ⟨ready, hready, h⟩ := bind_ok h
  obtain ⟨_, hrange, h⟩ := bind_ok h
  cases h
  have hr := settleOrFlush_ready hready
  obtain ⟨P, hpath, hP, hiff⟩ := path_settleOrFlush hready hview
  have hchunk : View.move header (ready.view arrived run.firstSeq) (.chunkRun run)
      = .ok (State.view
          { ready with
            pending := some
              { ready.attempt (some (.nat run.turn)) (some (.nat run.step)) with
                group := (ready.attempt (some (.nat run.turn))
                  (some (.nat run.step))).group.appendRun run } }
          arrived (run.firstSeq + run.eventCount)) := by
    simp only [View.move, State.view, hr.held, assertNext, hr.join, hrange, if_true, ok_bind,
      pure_eq]
    simp [State.held, hr.attempt]
  refine (hpath.trans (GuardedPath.single hchunk)).congr ?_
  constructor
  · rintro ⟨_, huncrossed⟩
    exact hiff.mp huncrossed
  · intro hok
    have huncrossed := hiff.mpr hok
    exact ⟨hP huncrossed, huncrossed⟩

/-! ## Messages -/

theorem messageEvent_references (htype : event.type = .assistantMessage) (group : AttemptGroup) :
    references (messageEvent event group) = references { event with sourceEventSeqs := none } := by
  simp [references, messageEvent, htype, payloadReferences]

theorem messageEvent_signature (htype : event.type = .assistantMessage) (group : AttemptGroup) :
    signature (messageEvent event group) = signature { event with sourceEventSeqs := none } := by
  simp only [signature, messageEvent_references htype]
  rfl

theorem citesItself_messageEvent (htype : event.type = .assistantMessage) (group : AttemptGroup) :
    CitesItself (messageEvent event group)
      ↔ CitesItself { event with sourceEventSeqs := none } := by
  simp only [CitesItself, messageEvent_references htype]
  rfl

theorem path_emitSource (hpending : s.pending = none) (h : emitSource header s event = .ok s')
    (arrived : List (ℕ × List (Option Json))) :
    Moves header (s.view arrived event.seq)
      (s'.view (arrived ++ [signature event]) (event.seq + 1)) (¬ CitesItself event) := by
  obtain ⟨target, htarget, hpure⟩ := bind_ok h
  cases hpure
  have hafter : ({ s with target }).pending = none := hpending
  rw [state_view_of_none hpending, state_view_of_none hafter]
  exact path_emitNow htarget arrived

theorem path_settleEmit {ready : State} (hready : finishAttempt header s = .ok ready)
    (h : emitSource header ready event = .ok s') (arrived : List (ℕ × List (Option Json))) :
    Moves header (s.view arrived event.seq)
      (s'.view (arrived ++ [signature event]) (event.seq + 1)) (¬ CitesItself event) := by
  have hsettle := path_finishAttempt hready arrived event.seq
  have hemit := path_emitSource (finishAttempt_ok hready).1 h arrived
  exact (hsettle.trans hemit).congr (by simp)

theorem path_citing {ready : State} (htype : event.type = .assistantMessage)
    (hpending : s.pending = some pending)
    (hcut : assertAttemptCut header pending.group event.seq = .ok ())
    (hready : flushBuffered header s pending = .ok ready)
    (hs' : emitMessage header ready event pending.group = .ok s')
    (hview : (s.view arrived event.seq).WellFormed) :
    Moves header (s.view arrived event.seq)
      (({ s' with pending := none } : State).view
        (arrived ++ [signature { event with sourceEventSeqs := none }]) (event.seq + 1))
      (¬ CitesItself { event with sourceEventSeqs := none }) := by
  obtain ⟨target, htarget, hflushed⟩ := flushBuffered_ok hready
  obtain ⟨target', htarget', hemit⟩ := bind_ok hs'
  cases hemit
  have hflush := path_flushBuffered hpending hready arrived event.seq
  subst hflushed
  have hcite : View.move header ⟨target, some pending.group, [], arrived, event.seq⟩ (.cite event)
      = .ok ⟨target', none, [],
          arrived ++ [signature { event with sourceEventSeqs := none }], event.seq + 1⟩ := by
    simp only [View.move, assertNext, assertMessage, htype, if_true, hcut, ok_bind, pure_eq]
    rw [show target.emitImage header pending.group.chunkSeqs (messageEvent event pending.group)
      = .ok target' from htarget']
    rfl
  refine (hflush.trans (GuardedPath.single hcite)).congr ?_
  have huncrossed : ∀ e ∈ pending.afterLastChunk, Uncrossed header (some pending.group) e.seq := by
    intro e he
    rw [state_view_of_some hpending] at hview
    have hfirst := (hview.group _ rfl).first?_eq
    rw [assertAttemptCut, hfirst] at hcut
    have hfar : Uncrossed header (some pending.group) event.seq :=
      uncrossed_some.mpr (assertAttemptRange_ok_iff.mp hcut)
    have hbehind := hview.start_lt_held rfl he
    exact hfar.between (Nat.le_of_lt hbehind) (Nat.le_of_lt (hview.below e he))
  simp only [Allowed, and_iff_right_iff_imp]
  intro _
  exact huncrossed

/-- A message is allowed when its kept references do not name itself. -/
theorem path_transformMessage (htype : event.type = .assistantMessage)
    (h : transformMessage header s event = .ok s') (hview : (s.view arrived event.seq).WellFormed) :
    Moves header (s.view arrived event.seq)
      (s'.view (arrived ++ [signature { event with sourceEventSeqs := none }]) (event.seq + 1))
      (¬ CitesItself { event with sourceEventSeqs := none }) := by
  unfold transformMessage at h
  obtain ⟨turn, _, h⟩ := bind_ok h
  obtain ⟨step, _, h⟩ := bind_ok h
  have hbare := messageEvent_signature htype (attemptGroup turn step)
  have hcites := citesItself_messageEvent htype (attemptGroup turn step)
  rw [← hbare, ← hcites]
  simp only at h
  split at h
  · next pending hpending =>
      split at h
      · obtain ⟨ready, hready, h⟩ := bind_ok h
        exact path_settleEmit hready h arrived
      · split at h
        · obtain ⟨ready, hready, h⟩ := bind_ok h
          exact path_settleEmit hready h arrived
        · split at h
          · cases h
          · obtain ⟨_, hcut, h⟩ := bind_ok h
            obtain ⟨ready, hready, h⟩ := bind_ok h
            obtain ⟨emitted, hemitted, h⟩ := bind_ok h
            cases h
            rw [hbare, hcites]
            exact path_citing htype hpending hcut hready hemitted hview
        · cases h
  · next hpending =>
      split at h
      · cases h
      · exact path_emitSource hpending h arrived

/-! ## Events -/

variable {change message : SessionEvent}

theorem splitLegacyGoalChange_ok (h : splitLegacyGoalChange event = .ok (some (change, message))) :
    event.type = .userMessage ∧ references change = [] ∧ change.type = .goalChange ∧
      signature message = signature event := by
  unfold splitLegacyGoalChange at h
  split at h
  · next htype =>
      obtain ⟨source, _, h⟩ := bind_ok h
      obtain ⟨kind, _, h⟩ := bind_ok h
      obtain ⟨value, _, h⟩ := bind_ok h
      split at h
      · split at h
        · cases h
          refine ⟨htype, rfl, rfl, ?_⟩
          simp [signature, references, htype, payloadReferences]
        · cases h
      · cases h
  · cases h

theorem path_generateRelease {t changed t' : Target} (hreferences : references change = [])
    (htype : change.type ≠ .sessionEndSeed)
    (hchange : t.emitGenerated header message.seq (.generated message.seq) change = .ok changed)
    (hmessage : changed.emitSource header message = .ok t') (group : Option AttemptGroup)
    (held : List SessionEvent) (arrived : List (ℕ × List (Option Json))) :
    Moves header ⟨t, group, held, arrived, message.seq⟩
      ⟨t', group, held, arrived ++ [signature message], message.seq + 1⟩
      (¬ CitesItself message ∧ held = [] ∧ Uncrossed header group message.seq) := by
  have hgenerate : View.move header ⟨t, group, held, arrived, message.seq⟩ (.generate change)
      = .ok ⟨changed, group, held, arrived, message.seq⟩ := move_generate hreferences htype hchange
  have harrive : View.move header ⟨changed, group, held, arrived, message.seq⟩ (.arrive message)
      = .ok ⟨changed, group, held ++ [message], arrived ++ [signature message],
          message.seq + 1⟩ := by
    simp [View.move, assertNext]
  have hlast : (held ++ [message])[held.length]? = some message := List.getElem?_concat_length
  have hrelease : View.move header
      ⟨changed, group, held ++ [message], arrived ++ [signature message], message.seq + 1⟩
      (.release held.length)
      = .ok ⟨t', group, (held ++ [message]).eraseIdx held.length,
          arrived ++ [signature message], message.seq + 1⟩ := move_release hlast hmessage
  have herase : (held ++ [message]).eraseIdx held.length = held := by
    rw [List.eraseIdx_append_of_length_le (Nat.le_refl _)]
    simp
  rw [herase] at hrelease
  refine ((GuardedPath.single hgenerate).trans
    ((GuardedPath.single harrive).trans (GuardedPath.single hrelease))).congr ?_
  simp only [Allowed, hlast, Option.some.injEq, forall_eq', List.length_eq_zero_iff]
  tauto

theorem path_goalChange {changed : State}
    (hsplit : splitLegacyGoalChange event = .ok (some (change, message)))
    (hchange : emitGenerated header s event.seq change = .ok changed)
    (hmessage : emitSource header changed message = .ok s')
    (arrived : List (ℕ × List (Option Json))) :
    Moves header (s.view arrived event.seq)
      (s'.view (arrived ++ [signature event]) (event.seq + 1))
      (¬ CitesItself event ∧ s.held = [] ∧
        Uncrossed header (s.pending.map (·.group)) event.seq) := by
  obtain ⟨_, hreferences, htype, hsignature⟩ := splitLegacyGoalChange_ok hsplit
  obtain ⟨target, htarget, hpure⟩ := bind_ok hchange
  cases hpure
  obtain ⟨target', htarget', hpure⟩ := bind_ok hmessage
  cases hpure
  have hseq : message.seq = event.seq := congrArg Prod.fst hsignature
  have hcites : CitesItself message ↔ CitesItself event := by
    have hrefs : references message = references event := congrArg Prod.snd hsignature
    simp only [CitesItself, hseq, hrefs]
  rw [← hseq] at htarget
  have hne : change.type ≠ .sessionEndSeed := by simp [htype]
  have hpath := path_generateRelease hreferences hne htarget htarget' (s.pending.map (·.group))
    s.held arrived
  rw [hsignature, hseq, hcites] at hpath
  exact hpath

/-- What arrives with an event. -/
def arrivals (event : SessionEvent) : List (ℕ × List (Option Json)) :=
  if event.type = .assistantChunk then [] else [signature (surviving event)]

theorem surviving_of_ne (h : event.type ≠ .assistantMessage) : surviving event = event := by
  simp [surviving, h]

theorem carriesGoalChange_type (h : CarriesGoalChange event) : event.type = .userMessage := by
  obtain ⟨⟨change, message⟩, hparts⟩ := h
  exact (splitLegacyGoalChange_ok hparts).1

theorem eventOk_of_not_goal (h : ¬ CarriesGoalChange event) :
    EventOk header s event
      ↔ (event.type ≠ .assistantChunk → ¬ CitesItself (surviving event)) :=
  ⟨fun hok => hok.cites, fun hcites => ⟨hcites, fun hgoal => absurd hgoal h⟩⟩

theorem eventOk_of_type (h : event.type ≠ .userMessage) :
    EventOk header s event
      ↔ (event.type ≠ .assistantChunk → ¬ CitesItself (surviving event)) :=
  eventOk_of_not_goal fun hgoal => h (carriesGoalChange_type hgoal)

/-- An event held back behind the pending attempt. -/
theorem path_holdBack (hpending : s.pending = some pending)
    (arrived : List (ℕ × List (Option Json))) :
    Moves header (s.view arrived event.seq)
      (({ s with
          pending := some
            { pending with afterLastChunk := pending.afterLastChunk ++ [event] } } : State).view
        (arrived ++ [signature event]) (event.seq + 1)) (¬ CitesItself event) := by
  have harrive : View.move header (s.view arrived event.seq) (.arrive event)
      = .ok (({ s with
          pending := some
            { pending with afterLastChunk := pending.afterLastChunk ++ [event] } } : State).view
        (arrived ++ [signature event]) (event.seq + 1)) := by
    simp [View.move, assertNext, State.view, State.held, hpending]
  exact GuardedPath.single harrive

theorem path_transformChecked (h : transformChecked header s event = .ok s')
    (hview : (s.view arrived event.seq).WellFormed) :
    Moves header (s.view arrived event.seq)
      (s'.view (arrived ++ arrivals event) (event.seq + 1)) (EventOk header s event) := by
  obtain ⟨parts, hparts, h⟩ := bind_ok h
  match parts, hparts, h with
  | some (change, message), hparts, h =>
    obtain ⟨changed, hchanged, hmessage⟩ := bind_ok h
    have htype := (splitLegacyGoalChange_ok hparts).1
    have hpath := path_goalChange hparts hchanged hmessage arrived
    have hne : event.type ≠ .assistantMessage := by simp [htype]
    have hchunk : event.type ≠ .assistantChunk := by simp [htype]
    rw [arrivals, if_neg hchunk, surviving_of_ne hne]
    refine hpath.congr ?_
    constructor
    · rintro ⟨hcites, hheld⟩
      exact ⟨fun _ => by rwa [surviving_of_ne hne], fun _ => hheld⟩
    · intro hok
      have hcites := hok.cites hchunk
      rw [surviving_of_ne hne] at hcites
      exact ⟨hcites, hok.goal ⟨_, hparts⟩⟩
  | none, hparts, h =>
    have hgoal : ¬ CarriesGoalChange event := by
      rintro ⟨other, hother⟩
      rw [hparts] at hother
      cases hother
    simp only at h
    split at h
    · next hchunk =>
        rw [arrivals, if_pos hchunk, List.append_nil]
        refine (path_transformChunk h hview).congr ?_
        rw [eventOk_of_not_goal hgoal]
        simp [hchunk]
    · next hchunk =>
        rw [arrivals, if_neg hchunk]
        split at h
        · next hmessage =>
            have hsurvives : surviving event = { event with sourceEventSeqs := none } := by
              simp [surviving, hmessage]
            rw [hsurvives]
            refine (path_transformMessage hmessage h hview).congr ?_
            rw [eventOk_of_not_goal hgoal, hsurvives]
            simp [hchunk]
        · next hmessage =>
            rw [surviving_of_ne hmessage]
            have hok : EventOk header s event ↔ ¬ CitesItself event := by
              rw [eventOk_of_not_goal hgoal, surviving_of_ne hmessage]
              simp [hchunk]
            rw [hok]
            split at h
            · obtain ⟨ready, hready, h⟩ := bind_ok h
              exact path_settleEmit hready h arrived
            · split at h
              · next pending hpending =>
                  cases h
                  exact path_holdBack hpending arrived
              · next hpending => exact path_emitSource hpending h arrived

theorem legacyInterruptedTurn_ok {state : LegacyTurnState} {turnEnd : SessionEvent}
    (h : legacyInterruptedTurn state event = .ok (some turnEnd)) :
    event.type = .turnStart ∧ references turnEnd = [] ∧ turnEnd.type = .turnEnd := by
  unfold legacyInterruptedTurn at h
  split at h
  · next htype _ _ =>
      refine ⟨htype, ?_⟩
      obtain ⟨turn, _, h⟩ := bind_ok h
      split at h
      · split at h
        · cases h
        · obtain ⟨target, _, h⟩ := bind_ok h
          split at h
          · split at h
            · cases h
              exact ⟨rfl, rfl⟩
            · cases h
          · cases h
      · cases h
  · cases h

theorem path_closeInterrupted {turnEnd : SessionEvent} (hreferences : references turnEnd = [])
    (htype : turnEnd.type = .turnEnd) (h : closeInterrupted header s event (some turnEnd) = .ok s')
    (arrived : List (ℕ × List (Option Json))) :
    s'.pending = none ∧
      Moves header (s.view arrived event.seq) (s'.view arrived event.seq) True := by
  obtain ⟨ready, hready, h⟩ := bind_ok h
  obtain ⟨target, htarget, hpure⟩ := bind_ok h
  cases hpure
  have hnone := (finishAttempt_ok hready).1
  have hsettle := path_finishAttempt hready arrived event.seq
  have hgenerate : View.move header (ready.view arrived event.seq) (.generate turnEnd)
      = .ok { ready.view arrived event.seq with target } :=
    move_generate hreferences (by simp [htype]) htarget
  refine ⟨hnone, (hsettle.trans (GuardedPath.single hgenerate)).congr ?_⟩
  simp [Allowed, State.view, State.held, hnone, uncrossed_none]

theorem observe_ok (h : s.observe event = .ok s') :
    s'.pending = s.pending ∧ s'.target = s.target := by
  obtain ⟨legacyTurns, _, hpure⟩ := bind_ok h
  cases hpure
  exact ⟨rfl, rfl⟩

theorem view_congr (hpending : s'.pending = s.pending) (htarget : s'.target = s.target)
    (arrived : List (ℕ × List (Option Json))) (next : ℕ) :
    s'.view arrived next = s.view arrived next := by
  simp only [State.view, State.held, hpending, htarget]

theorem eventOk_congr (hpending : s'.pending = s.pending) :
    EventOk header s' event ↔ EventOk header s event := by
  constructor
  · intro hok
    refine ⟨hok.cites, ?_⟩
    simpa only [State.held, hpending] using hok.goal
  · intro hok
    refine ⟨hok.cites, ?_⟩
    simpa only [State.held, hpending] using hok.goal

theorem path_transformReleasedEvent (h : transformReleasedEvent header s event = .ok s')
    (hview : (s.view arrived event.seq).WellFormed) :
    Moves header (s.view arrived event.seq)
      (s'.view (arrived ++ arrivals event) (event.seq + 1)) (EventOk header s event) := by
  unfold transformReleasedEvent at h
  obtain ⟨_, _, h⟩ := bind_ok h
  obtain ⟨interrupted, hinterrupted, h⟩ := bind_ok h
  obtain ⟨_, _, h⟩ := bind_ok h
  obtain ⟨_, _, h⟩ := bind_ok h
  obtain ⟨observed, hobserved, h⟩ := bind_ok h
  obtain ⟨ready, hready, hchecked⟩ := bind_ok h
  obtain ⟨hpending, htarget⟩ := observe_ok hobserved
  rw [← view_congr hpending htarget] at hview ⊢
  rw [← eventOk_congr hpending]
  cases interrupted with
  | none =>
    cases hready
    exact path_transformChecked hchecked hview
  | some turnEnd =>
    obtain ⟨htype, hreferences, hend⟩ := legacyInterruptedTurn_ok hinterrupted
    obtain ⟨_, hclose⟩ := path_closeInterrupted hreferences hend hready arrived
    have hpath := path_transformChecked hchecked (hclose.wellFormed hview)
    have hne : event.type ≠ .userMessage := by simp [htype]
    rw [eventOk_of_type hne] at hpath ⊢
    exact (hclose.trans hpath).congr (by simp)

/-! ## Runs -/

/-- How many source events a step takes. -/
def SourceStep.count : SourceStep → ℕ
  | .event _ => 1
  | .chunkRun run => run.eventCount

/-- What arrives with a step. -/
def SourceStep.arrivals : SourceStep → List (ℕ × List (Option Json))
  | .event e => V1ToV2.arrivals e
  | .chunkRun _ => []

def SourceStep.firstSeq : SourceStep → ℕ
  | .event e => e.seq
  | .chunkRun run => run.firstSeq

/-- Every step takes the next source seqs. -/
def Dense (next : ℕ) : List SourceStep → Prop
  | [] => True
  | step :: steps => step.firstSeq = next ∧ Dense (next + step.count) steps

theorem path_transformStep {step : SourceStep} (h : transformStep header s step = .ok s')
    (hview : (s.view arrived step.firstSeq).WellFormed) :
    Moves header (s.view arrived step.firstSeq)
      (s'.view (arrived ++ step.arrivals) (step.firstSeq + step.count))
      (StepOk header s step) := by
  cases step with
  | event event => exact path_transformReleasedEvent h hview
  | chunkRun run =>
    rw [SourceStep.arrivals, List.append_nil]
    exact path_transformReleasedRun h hview

/-- A run over a dense source is allowed exactly when each of its steps is. -/
theorem path_run {steps : List SourceStep} {next : ℕ} (hdense : Dense next steps)
    (h : steps.foldlM (transformStep header) s = .ok s') (hview : (s.view arrived next).WellFormed) :
    Moves header (s.view arrived next)
      (s'.view (arrived ++ steps.flatMap SourceStep.arrivals)
        (next + (steps.map SourceStep.count).sum))
      (Guarded (transformStep header) (StepOk header) s steps) := by
  induction steps generalizing s next arrived with
  | nil =>
    cases h
    simpa [Guarded] using GuardedPath.refl
  | cons step steps ih =>
    rw [List.foldlM_cons] at h
    obtain ⟨u, hu, hrest⟩ := bind_ok h
    obtain ⟨hfirst, htail⟩ := hdense
    subst hfirst
    have hstep := path_transformStep hu hview
    have hsteps := ih htail hrest (hstep.wellFormed hview)
    rw [List.append_assoc, Nat.add_assoc] at hsteps
    refine (hstep.trans hsteps).congr ?_
    rw [Guarded, hu]
    simp

end V1ToV2

end TianmaCoder
