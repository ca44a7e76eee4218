import TianmaCoder.Agent.ToolCallsPool

/-!
# Tool calls run once, in order

What the environment does between two segments keeps the invariant of the pool, so it holds in
every run; what a run has recorded follows from it.

## Main definitions

* `Scheduled` — what a run has done to the log, the contexts and the dispatches.

## Main results

* `AtPoint.step` — every step keeps what the awaits rely on.
* `executeToolCalls_scheduled` — every run is scheduled.
-/

namespace TianmaCoder

namespace ToolCalls

open Effect

variable {ε κ : Type} {settings : Settings ε κ} {planned : List ToolCallBlock}
variable {s t : State ε κ}

/-! ## The environment -/

theorem Pool.quiet (h : Pool settings planned s) (q : Quiet s t) : Pool settings planned t where
  toRecorded := h.toRecorded.quiet q
  group_prefix := by
    rw [q.group_eq, q.next_eq]
    exact h.group_prefix
  single := by
    rw [q.group_eq]
    exact h.single
  called := by
    rw [q.callSeqs_eq, q.group_eq, q.next_eq]
    exact h.called
  classified := by
    rw [q.startModes_eq, q.group_eq, q.next_eq]
    exact h.classified
  settled := by
    rw [q.outcomes_eq, q.group_eq, q.next_eq]
    exact h.settled
  unskipped := by
    rw [q.skipped_eq]
    exact h.unskipped
  committed_le := by
    rw [q.group_eq]
    exact h.committed_le
  started_le := by
    rw [q.group_eq]
    exact h.started_le
  slots_length := by
    rw [q.group_eq]
    exact h.slots_length
  callSeqs_length := by
    rw [q.group_eq]
    exact h.callSeqs_length
  cites := by
    rw [q.callSeqs_eq, q.group_eq, q.next_eq]
    exact h.cites
  unfilled := by
    rw [q.group_eq]
    exact h.unfilled
  pending_lt := by
    rw [q.group_eq]
    exact h.pending_lt
  pending_nodup := by
    rw [q.group_eq]
    exact h.pending_nodup
  outcome := by
    rw [q.group_eq]
    exact h.outcome
  parallel := by
    rw [q.startModes_eq, q.group_eq, q.next_eq]
    exact h.parallel
  contexts_eq := by
    rw [q.contexts_eq, q.outcomes_eq]
    exact h.contexts_eq
  aborted := by
    rw [q.group_eq]
    exact fun haborted => q.signal (h.aborted haborted)

theorem Failing.quiet (h : Failing settings planned s) (q : Quiet s t) :
    Failing settings planned t :=
  ⟨h.toRecorded.quiet q, q.skipped_eq ▸ h.unskipped⟩

theorem Between.quiet {k : ℕ} (h : Between settings planned k s) (q : Quiet s t) :
    Between settings planned k t where
  toRecorded := h.toRecorded.quiet q
  idle := by
    rw [q.group_eq]
    exact h.idle
  called := by
    rw [q.callSeqs_eq, q.next_eq]
    exact h.called
  allAnswered := by
    rw [q.answers_eq, q.next_eq]
    exact h.allAnswered
  settled := by
    rw [q.outcomes_eq, q.startModes_eq]
    exact h.settled
  contexts_eq := by
    rw [q.contexts_eq, q.outcomes_eq]
    exact h.contexts_eq

/-- The signal, the registry and other writers change nothing an await relies on. -/
theorem AtPoint.quiet {point : Point ε} (h : AtPoint settings planned point s) (q : Quiet s t) :
    AtPoint settings planned point t := by
  cases point with
  | prepare =>
    rw [AtPoint, q.group_eq]
    exact ⟨h.1.quiet q, h.2⟩
  | startCall =>
    rw [AtPoint, q.group_eq]
    exact ⟨h.1.quiet q, h.2⟩
  | finalize =>
    rw [AtPoint, q.group_eq]
    exact ⟨h.1.quiet q, h.2⟩
  | commitReady =>
    rw [AtPoint, q.group_eq]
    exact ⟨h.1.quiet q, h.2⟩
  | fillPool =>
    rw [AtPoint, q.group_eq]
    exact ⟨h.1.quiet q, h.2⟩
  | race =>
    rw [AtPoint, q.group_eq]
    exact ⟨h.1.quiet q, h.2⟩
  | thrown error => exact Failing.quiet h q
  | drain => exact Failing.quiet h q
  | outcome o =>
    rw [AtPoint, q.next_eq, q.skipped_eq]
    exact ⟨h.1.quiet q, h.2.1, fun haborted => q.signal (h.2.2.1 haborted), h.2.2.2⟩
  | returned concluded =>
    rw [AtPoint, q.next_eq]
    exact ⟨h.1.quiet q, h.2⟩
  | failed error =>
    rw [AtPoint, State.running, q.group_eq]
    exact ⟨h.1.quiet q, h.2⟩
  | refused error =>
    rw [AtPoint, q.group_eq]
    exact ⟨h.1.quiet q, h.2⟩

/-! ## A dispatch settles -/

namespace Group

variable {g : Group ε κ} {index : ℕ} {outcome : Except ε (Slot κ)}

@[simp] theorem settle_nextToStart : (g.settle index outcome).nextToStart = g.nextToStart := by
  cases outcome <;> rfl
@[simp] theorem settle_calls : (g.settle index outcome).calls = g.calls := by
  cases outcome <;> rfl
@[simp] theorem settle_mode : (g.settle index outcome).mode = g.mode := by
  cases outcome <;> rfl
@[simp] theorem settle_started : (g.settle index outcome).started = g.started := by
  cases outcome <;> rfl
@[simp] theorem settle_committed : (g.settle index outcome).committed = g.committed := by
  cases outcome <;> rfl
@[simp] theorem settle_aborted : (g.settle index outcome).aborted = g.aborted := by
  cases outcome <;> rfl
@[simp] theorem settle_callSeqs : (g.settle index outcome).callSeqs = g.callSeqs := by
  cases outcome <;> rfl

theorem settle_inFlight : (g.settle index outcome).inFlight
    = g.inFlight.map fun p => (p.1, p.2 || p.1 == index) := by
  cases outcome <;> rfl

theorem settle_keys : (g.settle index outcome).inFlight.map Prod.fst = g.inFlight.map Prod.fst := by
  rw [settle_inFlight, List.map_map]
  rfl

@[simp] theorem settle_pending (i : ℕ) : (g.settle index outcome).Pending i ↔ g.Pending i := by
  rw [Pending, settle_keys, Pending]

theorem settle_filled (hlt : index < g.slots.length) {i : ℕ}
    (h : (g.settle index outcome).Filled i) : i = index ∨ g.Filled i := by
  cases outcome with
  | ok slot => exact (filled_setSlot hlt slot i).mp h
  | error error => exact .inr h

theorem filled_settle (hlt : index < g.slots.length) {i : ℕ} (h : g.Filled i) :
    (g.settle index outcome).Filled i := by
  cases outcome with
  | ok slot => exact (filled_setSlot hlt slot i).mpr (.inr h)
  | error error => exact h

end Group

section Settle

variable {index : ℕ} {outcome : Except ε (Slot κ)}

theorem Recorded.settle (h : Recorded settings planned s) :
    Recorded settings planned { s with group := s.group.settle index outcome } :=
  { h with
    pool := by
      simp only [Group.settle_inFlight, List.length_map]
      exact h.pool }

theorem Failing.settle (h : Failing settings planned s) :
    Failing settings planned { s with group := s.group.settle index outcome } :=
  ⟨h.toRecorded.settle, h.unskipped⟩

variable (hrunning : (index, false) ∈ s.group.inFlight)
include hrunning

theorem Pool.settle_lt (h : Pool settings planned s) : index < s.group.slots.length := by
  have hlt := h.pending_lt index (List.mem_map_of_mem hrunning)
  have hle := h.started_le
  rw [h.slots_length]
  omega

/-- The reactions on a dispatch keep the pool. -/
theorem Pool.settle (h : Pool settings planned s) :
    Pool settings planned { s with group := s.group.settle index outcome } := by
  have hlen := h.settle_lt hrunning
  have hstarted := h.pending_lt index (List.mem_map_of_mem hrunning)
  exact
    { toRecorded := h.toRecorded.settle
      group_prefix := by simpa using h.group_prefix
      single := by simpa using h.single
      called := by simpa using h.called
      classified := by simpa using h.classified
      settled := by simpa using h.settled
      unskipped := h.unskipped
      committed_le := by simpa using h.committed_le
      started_le := by simpa using h.started_le
      slots_length := by
        have hslots := h.slots_length
        cases outcome <;> simpa [Group.settle, Group.setSlot] using hslots
      callSeqs_length := by simpa using h.callSeqs_length
      cites := by simpa using h.cites
      unfilled := by
        intro i hi hfilled
        rw [Group.settle_started] at hi
        rcases Group.settle_filled hlen hfilled with rfl | hfilled
        · omega
        · exact h.unfilled i hi hfilled
      pending_lt := by simpa using h.pending_lt
      pending_nodup := by
        simp only [Group.settle_keys]
        exact h.pending_nodup
      outcome := by
        intro hnone i hi
        cases outcome with
        | ok slot =>
          rw [Group.settle_inFlight] at hi
          obtain ⟨p, hp, heq⟩ := List.mem_map.mp hi
          refine (Group.filled_setSlot hlen slot i).mpr ?_
          by_cases hindex : i = index
          · exact .inl hindex
          · have hpi : p.1 = i := congrArg Prod.fst heq
            have hsettled : p.2 = true := by
              have hsnd : (p.2 || p.1 == index) = true := congrArg Prod.snd heq
              rwa [hpi, beq_false_of_ne hindex, Bool.or_false] at hsnd
            exact .inr (h.outcome hnone i (by rw [← hpi, ← hsettled]; exact hp))
        | error error =>
          cases hfailure : s.group.schedulerFailure with
          | none => simp [Group.settle, hfailure] at hnone
          | some first => simp [Group.settle, hfailure] at hnone
      parallel := by simpa using h.parallel
      contexts_eq := h.contexts_eq
      aborted := by simpa using h.aborted }

theorem Pool.settle_live (h : Pool settings planned s) {bound : ℕ} (hlive : s.group.Live bound) :
    (s.group.settle index outcome).Live bound := by
  intro i hi hilt
  rw [Group.settle_committed] at hi
  refine (hlive i hi hilt).imp (Group.filled_settle (h.settle_lt hrunning)) ?_
  exact (Group.settle_pending i).mpr

theorem Pool.settle_waiting (h : Pool settings planned s) (hw : Waiting s.group) :
    Waiting (s.group.settle index outcome) where
  next_eq := by
    rw [Group.settle_nextToStart, Group.settle_started]
    exact hw.next_eq
  live := by
    rw [Group.settle_started]
    exact h.settle_live hrunning hw.live
  drained := by
    intro hfilled
    rw [Group.settle_committed] at hfilled ⊢
    refine (Group.settle_pending _).mpr ?_
    rcases Group.settle_filled (h.settle_lt hrunning) hfilled with heq | hfilled
    · rw [heq]
      exact List.mem_map_of_mem hrunning
    · exact hw.drained hfilled

/-- A dispatch settles wherever the function stands. -/
theorem AtPoint.settle {point : Point ε} (h : AtPoint settings planned point s) :
    AtPoint settings planned point
      { s with group := s.group.settle index outcome } := by
  have hbusy : s.group.inFlight ≠ [] := List.ne_nil_of_mem hrunning
  cases point with
  | prepare =>
    obtain ⟨hpool, hnext, hle, hlive, hunfilled, hpending, hroom⟩ := h
    refine ⟨hpool.settle hrunning, by simpa using hnext, by simpa using hle, ?_, ?_, ?_, ?_⟩
    · simp only [Group.settle_nextToStart]
      exact hpool.settle_live hrunning hlive
    · simp only [Group.settle_nextToStart]
      intro hfilled
      rcases Group.settle_filled (hpool.settle_lt hrunning) hfilled with heq | hfilled
      · rw [heq] at hpending
        exact hpending (List.mem_map_of_mem hrunning)
      · exact hunfilled hfilled
    · simpa using hpending
    · simp only [Group.settle_inFlight, List.length_map]
      exact hroom
  | startCall =>
    obtain ⟨hpool, hnext, hlive⟩ := h
    refine ⟨hpool.settle hrunning, by simpa using hnext, ?_⟩
    simp only [Group.settle_started]
    exact hpool.settle_live hrunning hlive
  | finalize =>
    obtain ⟨hpool, hnext, hlive, hfilled⟩ := h
    refine ⟨hpool.settle hrunning, by simpa using hnext, ?_, ?_⟩
    · simp only [Group.settle_started]
      exact hpool.settle_live hrunning hlive
    · simp only [Group.settle_committed]
      exact Group.filled_settle (hpool.settle_lt hrunning) hfilled
  | commitReady =>
    obtain ⟨hpool, hw, hstarted⟩ := h
    exact ⟨hpool.settle hrunning, hpool.settle_waiting hrunning hw, by simpa using hstarted⟩
  | fillPool => exact ⟨h.1.settle hrunning, h.1.settle_waiting hrunning h.2⟩
  | race => exact ⟨h.1.settle hrunning, h.1.settle_waiting hrunning h.2⟩
  | thrown error => exact Failing.settle h
  | drain => exact Failing.settle h
  | outcome o => exact absurd h.1.idle hbusy
  | returned concluded => exact absurd h.1.idle hbusy
  | failed error =>
    have hpositive : 0 < s.running := List.countP_pos_iff.mpr ⟨_, hrunning, rfl⟩
    exact absurd h.2 (Nat.ne_of_gt hpositive)
  | refused error => exact absurd h.2 hbusy

end Settle

/-! ## Runs -/

/-- A segment that keeps the invariant lands at a point that meets it. -/
theorem AtPoint.of_leaves {segment : Segment ε κ (Point ε)}
    (h : Leaves (AtPoint settings planned) (fun error => AtPoint settings planned (.failed error))
      (segment s)) :
    AtPoint settings planned (resumed s segment).point (resumed s segment).state := by
  unfold resumed
  cases hrun : segment s with
  | ok point t => rwa [hrun] at h
  | error error t => rwa [hrun] at h

theorem AtPoint.resumption {point : Point ε} {action : Action ε κ}
    {segment : Segment ε κ (Point ε)} (h : AtPoint settings planned point s)
    (hresume : resumption settings planned s point action = some segment) :
    Leaves (AtPoint settings planned) (fun error => AtPoint settings planned (.failed error))
      (segment s) := by
  unfold ToolCalls.resumption at hresume
  split at hresume
  · cases hresume
    exact inPool_spec (continueCall_spec _ h)
  · cases hresume
    exact inPool_spec h.1.failing
  · cases hresume
    exact inPool_spec (afterStart_spec h)
  · cases hresume
    exact inPool_spec (commit_spec _ h)
  · cases hresume
    exact inPool_spec h.1.failing
  · cases hresume
    exact inPool_spec (afterCommit_spec h)
  · cases hresume
    exact afterFill_spec h
  · split at hresume
    · cases hresume
      exact inPool_spec (afterRace_spec h ‹_›)
    · cases hresume
  · cases hresume
    exact ⟨{ h.toRecorded with }, h.unskipped⟩
  · split at hresume
    · rename_i hall
      obtain ⟨error, _, rfl⟩ := Option.map_eq_some_iff.mp hresume
      refine ⟨h, ?_⟩
      rw [State.running, List.countP_eq_zero]
      intro p hp
      simp [List.all_eq_true.mp hall p hp]
    · cases hresume
  · cases hresume
    exact continueWith_spec h
  · cases hresume

/-- Every step keeps what the awaits rely on. -/
theorem AtPoint.step {x y : Execution ε κ} {action : Action ε κ}
    (h : AtPoint settings planned x.point x.state)
    (hstep : step settings planned x action = some y) :
    AtPoint settings planned y.point y.state := by
  unfold ToolCalls.step at hstep
  split at hstep
  · cases hstep
    exact h.quiet ⟨rfl, rfl, rfl, Nat.le_refl _, fun _ => rfl, rfl, rfl, rfl, rfl, rfl, rfl⟩
  · cases hstep
    exact h.quiet ⟨rfl, rfl, rfl, Nat.le_refl _, id, rfl, rfl, rfl, rfl, rfl, rfl⟩
  · cases hstep
    exact h.quiet ⟨callSeqs_other _ _, callData_other _ _, results_other _ _, by simp, id, rfl, rfl,
      rfl, rfl, rfl, rfl⟩
  · split at hstep
    · cases hstep
      exact h.settle ‹_›
    · cases hstep
  · obtain ⟨segment, hresume, rfl⟩ := Option.map_eq_some_iff.mp hstep
    exact AtPoint.of_leaves (h.resumption hresume)

theorem start_spec (signalAborted : Bool) (executionMode : ToolCallBlock → Except ε Mode) :
    AtPoint settings planned (start settings planned signalAborted executionMode).point
      (start settings planned signalAborted executionMode).state := by
  refine AtPoint.of_leaves (nextGroup_spec ?_ rfl)
  exact
    { calls := rfl
      fits := Nat.zero_le _
      below := fun seq hseq => absurd hseq List.not_mem_nil
      increasing := List.Pairwise.nil
      results := by
        change [] = ToolCalls.answered settings planned [] []
        simp [ToolCalls.answered]
      answered := Nat.le_refl _
      started := Nat.le_refl _
      committed := Nat.le_refl _
      contexts := List.prefix_refl _
      pool := Nat.zero_le _
      skipped := fun hpos => absurd hpos (Nat.lt_irrefl 0)
      exclusive := fun i j hi _ _ => absurd hi.2 (Nat.not_lt_zero i)
      idle := rfl
      called := rfl
      allAnswered := rfl
      settled := rfl
      contexts_eq := rfl }

/-- What a run of `executeToolCalls` has done, and how it ends. -/
structure Scheduled (settings : Settings ε κ) (planned : List ToolCallBlock)
    (x : Execution ε κ) : Prop where
  /-- The calls on record are the first ones of the message, each once, in model order. -/
  calls : callData x.state.log
    = (planned.take (callSeqs x.state.log).length).map (toolCallData settings)
  distinct : (callSeqs x.state.log).Pairwise (· < ·)
  /-- The results on record answer the first of these calls, each once and citing its own. -/
  results : results x.state.log
    = answered settings planned (callSeqs x.state.log) x.state.answers
  answered : x.state.answers.length ≤ (callSeqs x.state.log).length
  complete : ∀ concluded, x.point = .returned concluded →
    (callSeqs x.state.log).length = planned.length ∧ x.state.answers.length = planned.length
  bounded : x.state.running ≤ settings.maxParallelToolCalls
  /-- A call classified as exclusive when it starts is the only open call until its result. -/
  exclusive : ∀ i j, x.state.Open i → x.state.Open j →
    x.state.startModes[i]? = some (.ok .exclusive) → j = i
  /-- The accepted contexts are those of the committed results, in their order. -/
  contexts : x.state.contexts
    <+: x.state.outcomes.flatMap ToolExecutionResult.additionalContexts
  accepted : ∀ concluded, x.point = .returned concluded →
    x.state.contexts = x.state.outcomes.flatMap ToolExecutionResult.additionalContexts
  /-- Each result of an execution is that of a started call. -/
  started : x.state.outcomes.length ≤ x.state.startModes.length
  /-- The synthetic results come behind those of all started calls, and after an abort. -/
  skipped : 0 < x.state.skipped →
    x.state.signalAborted = true ∧ x.state.outcomes.length = x.state.startModes.length
  /-- A run that returns has a result of its own for every started call. -/
  finished : ∀ concluded, x.point = .returned concluded →
    x.state.outcomes.length = x.state.startModes.length
  /-- A failed scheduler fabricates nothing. -/
  fabricated : ∀ error, x.point = .failed error → x.state.skipped = 0
  /-- A rejected run has left no dispatch running. -/
  drained : ∀ error, x.point = .failed error ∨ x.point = .refused error → x.state.running = 0

theorem AtPoint.recorded {point : Point ε} (h : AtPoint settings planned point s) :
    Recorded settings planned s := by
  cases point with
  | prepare | startCall | finalize | commitReady | fillPool | race => exact h.1.toRecorded
  | thrown error => exact h.toRecorded
  | drain => exact h.toRecorded
  | outcome o => exact h.1.toRecorded
  | returned concluded => exact h.1.toRecorded
  | failed error => exact h.1.toRecorded
  | refused error => exact h.1

theorem AtPoint.scheduled {x : Execution ε κ} (h : AtPoint settings planned x.point x.state) :
    Scheduled settings planned x where
  calls := h.recorded.calls
  distinct := h.recorded.increasing
  results := h.recorded.results
  answered := h.recorded.answered
  complete concluded hpoint := by
    rw [hpoint] at h
    have hcalled := h.1.called
    have hanswered := h.1.allAnswered
    have hle := h.2
    omega
  bounded := Nat.le_trans List.countP_le_length h.recorded.pool
  exclusive := h.recorded.exclusive
  contexts := h.recorded.contexts
  accepted concluded hpoint := by
    rw [hpoint] at h
    exact h.1.contexts_eq
  started := h.recorded.committed
  skipped := h.recorded.skipped
  finished concluded hpoint := by
    rw [hpoint] at h
    exact h.1.settled
  fabricated error hpoint := by
    rw [hpoint] at h
    exact h.1.unskipped
  drained error hpoint := by
    rcases hpoint with hpoint | hpoint
    · rw [hpoint] at h
      exact h.2
    · rw [hpoint] at h
      rw [State.running, h.2]
      rfl

/-- In every run, whatever the environment does and in whatever order, the calls of the message
are recorded and answered in model order, within the bounds of the pool, and completely where
the run returns. -/
theorem executeToolCalls_scheduled {signalAborted : Bool}
    {executionMode : ToolCallBlock → Except ε Mode} {actions : List (Action ε κ)}
    {x : Execution ε κ} (hrun : Transition.run (step settings planned)
      (start settings planned signalAborted executionMode) actions = some x) :
    Scheduled settings planned x := by
  have hpoint : AtPoint settings planned x.point x.state :=
    Transition.run_induction (motive := fun x => AtPoint settings planned x.point x.state)
      (fun _ _ _ h hstep => h.step hstep) (start_spec signalAborted executionMode) hrun
  exact hpoint.scheduled

/-- Two dispatches at a time; nothing throws. -/
def twoAtOnce : Settings String String where
  turn := 1
  step := 1
  maxParallelToolCalls := 2
  firstSeq := 7
  appendRefusal _ _ := none
  contextRefusal _ _ := none
  error := id

/-- Three parallel calls, two with one id. The second dispatch settles first, and an abort leaves
the third call unstarted. -/
def overtaken : List (Action String String) :=
  let result (text : String) : ToolExecutionResult String :=
    ⟨[.str text], false, none, none, [text], false⟩
  [.prepared (.ok .dispatch), .resume, .resume, .prepared (.ok .dispatch), .resume,
    .settle 1 (.ok ⟨result "second", true⟩), .resume, .resume, .raced 1, .abort, .resume, .resume,
    .foreign .null, .settle 0 (.ok ⟨result "first", false⟩), .raced 0,
    .finalized (.ok (result "first")), .finalized (.ok (result "second")), .resume, .resume,
    .resume]

theorem executeToolCalls_scheduled_overtaken : let read : ToolCallBlock := ⟨"call-1", "read", ""⟩
    let planned := [read, ⟨"call-2", "list", ""⟩, read]
    ∃ x, Transition.run (step twoAtOnce planned)
        (start twoAtOnce planned false fun _ => .ok .parallel) overtaken = some x
      ∧ (x.point, x.state.skipped, x.state.contexts) = (.returned false, 1, ["first", "second"])
      ∧ Scheduled twoAtOnce planned x := by
  intro read planned
  have hrun : (Transition.run (step twoAtOnce planned)
      (start twoAtOnce planned false fun _ => .ok .parallel) overtaken).map
        (fun x => (x.point, x.state.skipped, x.state.contexts))
      = some (.returned false, 1, ["first", "second"]) := by decide +kernel
  obtain ⟨x, hx, hend⟩ := Option.map_eq_some_iff.mp hrun
  exact ⟨x, hx, hend, executeToolCalls_scheduled hx⟩

end ToolCalls

end TianmaCoder
