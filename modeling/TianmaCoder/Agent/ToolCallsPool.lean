import TianmaCoder.Agent.ToolCallsRecord

/-!
# The invariant of a pool of tool calls

The three cursors of a pool (`nextToStart`, `started`, `committed`) against its slots and its
map of dispatches, at every await of `executeToolCalls`, and what each segment makes of it.

## Main definitions

* `Pool` — the locals of `runGroup` against the record.
* `AtPoint` — what holds at each await.

## Main results

* `commitReady_spec`, `fillPool_spec`, `commit_spec`, `settleGroup_spec`, `continueWith_spec` —
  each segment leads from what its await guarantees to what the next one does.
-/

namespace TianmaCoder

namespace ToolCalls

open Effect

variable {ε κ : Type} {settings : Settings ε κ} {planned : List ToolCallBlock}

/-! ## The invariant of a pool -/

namespace Group

/-- The slot of a call is filled. -/
def Filled (g : Group ε κ) (i : ℕ) : Prop := (g.slots[i]?.join).isSome = true

/-- A dispatch of the call has not been taken from the map yet. -/
def Pending (g : Group ε κ) (i : ℕ) : Prop := i ∈ g.inFlight.map Prod.fst

/-- The calls before `bound` are committed, filled or pending. -/
def Live (g : Group ε κ) (bound : ℕ) : Prop :=
  ∀ i, g.committed ≤ i → i < bound → g.Filled i ∨ g.Pending i

/-- The slot to commit next is empty, or its promise will be raced for. -/
def Drained (g : Group ε κ) : Prop := g.Filled g.committed → g.Pending g.committed

end Group

/-- The locals of `runGroup` against the record. -/
structure Pool (settings : Settings ε κ) (planned : List ToolCallBlock) (s : State ε κ) : Prop
    extends Recorded settings planned s where
  group_prefix : s.group.calls <+: planned.drop s.next
  single : s.group.mode = .exclusive → s.group.calls.length ≤ 1
  called : (callSeqs s.log).length = s.next + s.group.started
  classified : s.startModes.length = s.next + s.group.started
  settled : s.outcomes.length = s.next + s.group.committed
  unskipped : s.skipped = 0
  committed_le : s.group.committed ≤ s.group.started
  started_le : s.group.started ≤ s.group.calls.length
  slots_length : s.group.slots.length = s.group.calls.length
  callSeqs_length : s.group.callSeqs.length = s.group.calls.length
  cites : ∀ i < s.group.started,
    s.group.callSeqs[i]?.join = (callSeqs s.log)[s.next + i]?
  unfilled : ∀ i, s.group.started ≤ i → ¬ s.group.Filled i
  pending_lt : ∀ i, s.group.Pending i → i < s.group.started
  pending_nodup : (s.group.inFlight.map Prod.fst).Nodup
  outcome : s.group.schedulerFailure = none → ∀ i, (i, true) ∈ s.group.inFlight →
    s.group.Filled i
  parallel : s.group.mode = .parallel → ∀ i, s.next ≤ i → i < s.startModes.length →
    s.startModes[i]? = some (.ok .parallel)
  contexts_eq : s.contexts = s.outcomes.flatMap ToolExecutionResult.additionalContexts
  aborted : s.group.aborted = true → s.signalAborted = true

/-- What holds at the awaits of `runGroup` where every started call is accounted for. -/
structure Waiting (g : Group ε κ) : Prop where
  next_eq : g.nextToStart = g.started
  live : g.Live g.started
  drained : g.Drained

/-- What holds once the scheduler has failed. -/
structure Failing (settings : Settings ε κ) (planned : List ToolCallBlock) (s : State ε κ) : Prop
    extends Recorded settings planned s where
  unskipped : s.skipped = 0

/-- What holds between two groups, `consumed` calls of the last one being done. -/
structure Between (settings : Settings ε κ) (planned : List ToolCallBlock) (consumed : ℕ)
    (s : State ε κ) : Prop extends Recorded settings planned s where
  idle : s.group.inFlight = []
  called : (callSeqs s.log).length = s.next + consumed
  allAnswered : s.answers.length = s.next + consumed
  settled : s.outcomes.length = s.startModes.length
  contexts_eq : s.contexts = s.outcomes.flatMap ToolExecutionResult.additionalContexts

/-- What holds where `executeToolCalls` stands. -/
def AtPoint (settings : Settings ε κ) (planned : List ToolCallBlock) :
    Point ε → State ε κ → Prop
  | .prepare, s => Pool settings planned s ∧ s.group.nextToStart + 1 = s.group.started
      ∧ s.group.committed ≤ s.group.nextToStart ∧ s.group.Live s.group.nextToStart
      ∧ ¬ s.group.Filled s.group.nextToStart ∧ ¬ s.group.Pending s.group.nextToStart
      ∧ s.group.inFlight.length < settings.maxParallelToolCalls
  | .startCall, s => Pool settings planned s ∧ s.group.nextToStart + 1 = s.group.started
      ∧ s.group.Live s.group.started
  | .finalize, s => Pool settings planned s ∧ s.group.nextToStart = s.group.started
      ∧ s.group.Live s.group.started ∧ s.group.Filled s.group.committed
  | .commitReady, s => Pool settings planned s ∧ Waiting s.group ∧ 0 < s.group.started
  | .fillPool, s => Pool settings planned s ∧ Waiting s.group
  | .race, s => Pool settings planned s ∧ Waiting s.group
  | .thrown _, s => Failing settings planned s
  | .drain, s => Failing settings planned s
  | .outcome o, s => Between settings planned o.consumed s
      ∧ s.next + o.consumed ≤ planned.length
      ∧ (o.aborted = true → s.signalAborted = true) ∧ (o.aborted = false → s.skipped = 0)
  | .returned _, s => Between settings planned (planned.length - s.next) s
      ∧ s.next ≤ planned.length
  | .failed _, s => Failing settings planned s ∧ s.running = 0
  | .refused _, s => Recorded settings planned s ∧ s.group.inFlight = []

variable {s t : State ε κ}

namespace Pool

section

variable (h : Pool settings planned s)
include h

/-- A pool whose scheduler has failed. -/
theorem failing : Failing settings planned s :=
  ⟨h.toRecorded, h.unskipped⟩

theorem answers_length :
    s.answers.length = s.next + s.group.committed := by
  rw [State.answers, h.unskipped, List.replicate_zero, List.append_nil, h.settled]

/-- The blocks of the pool are the next ones of the plan. -/
theorem planned_at {i : ℕ} (hi : i < s.group.calls.length) :
    planned[s.next + i]? = some s.group.calls[i] := by
  obtain ⟨rest, hrest⟩ := h.group_prefix
  rw [← List.getElem?_drop, ← hrest, List.getElem?_append_left hi, List.getElem?_eq_getElem hi]

theorem filled_lt {i : ℕ} (hi : s.group.Filled i) :
    i < s.group.started := by
  by_contra hle
  exact h.unfilled i (by omega) hi

/-- A change of the cursor or of the flags alone. -/
theorem of_cursor {n : ℕ} {aborted : Bool}
    (haborted : aborted = true → s.signalAborted = true) :
    Pool settings planned
      { s with group := { s.group with nextToStart := n, aborted := aborted } } :=
  { h with aborted := haborted }

end

end Pool

/-! ## Reading the failure -/

theorem throwSchedulerFailure_spec (s : State ε κ) :
    Leaves (fun _ t => t = s ∧ s.group.schedulerFailure = none) (fun _ t => t = s)
      ((throwSchedulerFailure : Segment ε κ Unit) s) := by
  unfold throwSchedulerFailure
  rw [leaves_get_bind]
  cases hfailure : s.group.schedulerFailure with
  | none => exact ⟨rfl, rfl⟩
  | some error => rfl

/-- What follows a read of the failure starts from a pool without one. -/
theorem leaves_throwSchedulerFailure {f : Unit → Segment ε κ (Point ε)}
    (h : Pool settings planned s) (hf : s.group.schedulerFailure = none →
      Leaves (AtPoint settings planned) (fun _ => Failing settings planned) (f () s)) :
    Leaves (AtPoint settings planned) (fun _ => Failing settings planned)
      ((throwSchedulerFailure >>= f) s) := by
  have hread : Leaves (fun _ t => t = s ∧ s.group.schedulerFailure = none)
      (fun _ => Failing settings planned) ((throwSchedulerFailure : Segment ε κ Unit) s) :=
    leaves_mono (throwSchedulerFailure_spec s) (fun _ _ ht => ht) fun _ t ht => ht ▸ h.failing
  refine leaves_bind hread fun _ t ht => ?_
  rw [ht.1]
  exact hf ht.2

/-- The handler of the pool stands between every segment and its caller. -/
theorem inPool_spec {segment : Segment ε κ (Point ε)} {err : ε → State ε κ → Prop}
    (h : Leaves (AtPoint settings planned) (fun _ => Failing settings planned) (segment s)) :
    Leaves (AtPoint settings planned) err (inPool segment s) :=
  leaves_tryCatch h fun _ _ ht => ht

/-! ## The segments of a pool -/

theorem commitReady_spec (h : Pool settings planned s)
    (hnext : s.group.nextToStart = s.group.started) (hlive : s.group.Live s.group.started)
    (hstarted : 0 < s.group.started) :
    Leaves (AtPoint settings planned) (fun _ => Failing settings planned)
      ((commitReady : Segment ε κ (Point ε)) s) := by
  unfold commitReady
  rw [leaves_get_bind]
  by_cases hready : s.group.committed < s.group.calls.length
      ∧ (s.group.slots[s.group.committed]?.join).isSome = true
  · rw [if_pos hready]
    exact ⟨h, hnext, hlive, hready.2⟩
  · rw [if_neg hready]
    refine ⟨h, ⟨hnext, hlive, fun hfilled => ?_⟩, hstarted⟩
    have hlt := h.filled_lt hfilled
    have hle := h.started_le
    exact absurd ⟨by omega, hfilled⟩ hready

theorem append_spec (s : State ε κ) (event : ℕ → Event) :
    Leaves
      (fun seq t => seq = settings.firstSeq + s.log.length
        ∧ t = { s with log := s.log ++ [event (settings.firstSeq + s.log.length)] })
      (fun _ t => t = s) (append settings event s) := by
  simp only [append]
  split
  · rfl
  · exact ⟨rfl, rfl⟩

theorem startCall_spec (h : Pool settings planned s) (hw : Waiting s.group)
    (hlt : s.group.nextToStart < s.group.calls.length)
    (hpool : s.group.inFlight.length < settings.maxParallelToolCalls)
    (hmode : s.group.mode = .parallel →
      s.executionMode s.group.calls[s.group.nextToStart] = .ok .parallel) :
    Leaves (AtPoint settings planned) (fun _ => Failing settings planned)
      (startCall settings s.group.calls[s.group.nextToStart] s) := by
  unfold startCall appendToolCall
  refine leaves_bind (leaves_mono (append_spec s _) (fun _ _ ht => ht)
    fun _ t ht => ht ▸ h.failing) ?_
  rintro seq t ⟨rfl, rfl⟩
  rw [leaves_modify_bind, leaves_pure]
  have hnext := hw.next_eq
  have hcalled := h.called
  have hclassified := h.classified
  have hsettled := h.settled
  have hcommitted := h.committed_le
  have hanswers := h.answers_length
  have hblock : planned[(callSeqs s.log).length]?
      = some s.group.calls[s.group.nextToStart] := by
    rw [hcalled, ← hnext]
    exact h.planned_at hlt
  have hseqs : (callSeqs (s.log ++ [Event.toolCall (settings.firstSeq + s.log.length)
      (toolCallData settings s.group.calls[s.group.nextToStart])])).length
      = s.next + (s.group.started + 1) := by
    rw [callSeqs_toolCall, List.length_append, List.length_singleton, hcalled]
    omega
  have hparallel : s.group.mode = .parallel → ∀ i, s.next ≤ i →
      i < s.startModes.length + 1 →
      (s.startModes ++ [s.executionMode s.group.calls[s.group.nextToStart]])[i]?
        = some (.ok .parallel) := by
    intro hp i hi hilt
    by_cases hlast : i < s.startModes.length
    · rw [List.getElem?_append_left hlast]
      exact h.parallel hp i hi hlast
    · have heq : i = s.startModes.length := by omega
      rw [heq, List.getElem?_concat_length, hmode hp]
  refine ⟨?_, congrArg (· + 1) hnext, by simp only; omega, ?_, ?_, ?_, hpool⟩
  · refine
      { toRecorded := h.toRecorded.call hblock rfl rfl rfl (by simp) (by simp; omega) rfl rfl rfl
          (fun hpos => absurd h.unskipped (by omega)) ?_
        group_prefix := h.group_prefix
        single := h.single
        called := hseqs
        classified := by
          simp only [List.length_append, List.length_singleton]
          omega
        settled := h.settled
        unskipped := h.unskipped
        committed_le := by
          simp only
          omega
        started_le := by
          simp only
          omega
        slots_length := h.slots_length
        callSeqs_length := by
          simp only [List.length_set]
          exact h.callSeqs_length
        cites := ?_
        unfilled := fun i hi => h.unfilled i (by simp only at hi; omega)
        pending_lt := fun i hi => Nat.lt_succ_of_lt (h.pending_lt i hi)
        pending_nodup := h.pending_nodup
        outcome := h.outcome
        parallel := fun hp i hi hilt => hparallel hp i hi (by simpa using hilt)
        contexts_eq := h.contexts_eq
        aborted := h.aborted }
    · intro i j hi hj hexclusive
      have hlow : s.next + s.group.committed ≤ i := hanswers ▸ hi.1
      have hilt : i < s.next + (s.group.started + 1) := hseqs ▸ hi.2
      have hjlow : s.next + s.group.committed ≤ j := hanswers ▸ hj.1
      have hjlt : j < s.next + (s.group.started + 1) := hseqs ▸ hj.2
      cases hm : s.group.mode with
      | parallel =>
        have hpar := hparallel hm i (by omega) (by omega)
        rw [hexclusive] at hpar
        simp at hpar
      | exclusive =>
        have hsingle := h.single hm
        omega
    · intro i hi
      simp only at hi ⊢
      rw [callSeqs_toolCall]
      by_cases hlast : i < s.group.started
      · rw [List.getElem?_set_ne (by omega), List.getElem?_append_left (by omega)]
        exact h.cites i hlast
      · have heq : i = s.group.started := by omega
        have hlen := h.callSeqs_length
        rw [heq, hnext, List.getElem?_set_self (by omega), ← hcalled,
          List.getElem?_concat_length]
        rfl
  · intro i hi hilt
    exact hw.live i hi (hnext ▸ hilt)
  · exact h.unfilled s.group.nextToStart (by omega)
  · intro hpending
    have hlt' : s.group.nextToStart < s.group.started := h.pending_lt _ hpending
    omega

theorem fillPool_spec (h : Pool settings planned s) (hw : Waiting s.group)
    (hfirst : s.group.nextToStart = 0 → ∀ block, s.group.calls[0]? = some block →
      s.executionMode block = .ok s.group.mode) :
    Leaves (fun point t => AtPoint settings planned point t)
      (fun _ => Failing settings planned) (fillPool settings s) := by
  unfold fillPool
  rw [leaves_get_bind]
  by_cases hlt : s.group.nextToStart < s.group.calls.length
  · rw [dif_pos hlt]
    by_cases hroom : s.group.aborted = false
        ∧ s.group.inFlight.length < settings.maxParallelToolCalls
    · rw [if_pos hroom]
      unfold isBarrier
      by_cases hlater : 0 < s.group.nextToStart ∧ s.group.mode = .parallel
      · cases hmode : s.executionMode s.group.calls[s.group.nextToStart] with
        | error error =>
          rw [bind_assoc, leaves_get_bind, if_pos hlater, hmode]
          exact h.failing
        | ok mode =>
          rw [bind_assoc, leaves_get_bind, if_pos hlater, hmode]
          cases mode with
          | exclusive => exact ⟨h, hw⟩
          | parallel => exact startCall_spec h hw hlt hroom.2 fun _ => hmode
      · rw [bind_assoc, leaves_get_bind, if_neg hlater]
        refine startCall_spec h hw hlt hroom.2 fun hp => ?_
        have hzero : s.group.nextToStart = 0 := by
          by_contra hne
          exact hlater ⟨by omega, hp⟩
        have hmode := hfirst hzero s.group.calls[s.group.nextToStart]
          (by simp only [hzero]; exact List.getElem?_eq_getElem (hzero ▸ hlt))
        rw [hmode, hp]
    · rw [if_neg hroom]
      exact ⟨h, hw⟩
  · rw [dif_neg hlt]
    exact ⟨h, hw⟩

theorem afterStart_spec (h : AtPoint settings planned .startCall s) :
    Leaves (AtPoint settings planned) (fun _ => Failing settings planned)
      ((afterStart : Segment ε κ (Point ε)) s) := by
  obtain ⟨hpool, hnext, hlive⟩ := h
  unfold afterStart
  rw [leaves_modify_bind]
  have hpool' := hpool.of_cursor (n := s.group.nextToStart + 1) hpool.aborted
  refine leaves_throwSchedulerFailure hpool' fun _ => ?_
  exact commitReady_spec hpool' hnext hlive (by simp only; omega)

/-- The commit loop has run: the pool fills up again. -/
theorem afterCommit_spec (h : AtPoint settings planned .commitReady s) :
    Leaves (AtPoint settings planned) (fun _ => Failing settings planned)
      (afterCommit settings s) := by
  obtain ⟨hpool, hw, hstarted⟩ := h
  unfold afterCommit
  refine leaves_throwSchedulerFailure hpool fun _ => ?_
  rw [leaves_modify_bind]
  have haborted : (s.group.aborted || s.signalAborted) = true → s.signalAborted = true := by
    rw [Bool.or_eq_true]
    rintro (hg | hs)
    · exact hpool.aborted hg
    · exact hs
  refine fillPool_spec (hpool.of_cursor haborted) ⟨hw.next_eq, hw.live, hw.drained⟩ ?_
  intro hzero
  have hnext := hw.next_eq
  simp only at hzero
  omega

namespace Group

theorem filled_setSlot {g : Group ε κ} {index : ℕ} (hlt : index < g.slots.length)
    (slot : Slot κ) (i : ℕ) : (g.setSlot index slot).Filled i ↔ i = index ∨ g.Filled i := by
  unfold Filled setSlot
  by_cases hi : i = index
  · subst hi
    simp [hlt]
  · simp only [List.getElem?_set_ne (Ne.symm hi), hi, false_or]

end Group

theorem Pool.setSlot (h : Pool settings planned s) {index : ℕ} (hlt : index < s.group.started)
    (slot : Slot κ) : Pool settings planned { s with group := s.group.setSlot index slot } := by
  have hlen : index < s.group.slots.length := by
    have hle := h.started_le
    rw [h.slots_length]
    omega
  exact
    { h with
      slots_length := by
        simp only [Group.setSlot, List.length_set]
        exact h.slots_length
      unfilled := by
        intro i hi
        simp only [Group.filled_setSlot hlen]
        rintro (rfl | hfilled)
        · exact absurd hlt (Nat.not_lt.mpr hi)
        · exact h.unfilled i hi hfilled
      outcome := by
        intro hnone i hi
        exact (Group.filled_setSlot hlen slot i).mpr (.inr (h.outcome hnone i hi)) }

theorem continueCall_spec (prepared : Preparation ε κ) (h : AtPoint settings planned .prepare s) :
    Leaves (AtPoint settings planned) (fun _ => Failing settings planned)
      (continueCall prepared s) := by
  obtain ⟨hpool, hnext, _, hlive, hunfilled, hpending, hroom⟩ := h
  have hlen : s.group.nextToStart < s.group.slots.length := by
    have hle := hpool.started_le
    rw [hpool.slots_length]
    omega
  have hfill : ∀ slot, AtPoint settings planned .startCall
      { s with group := s.group.setSlot s.group.nextToStart slot } := by
    intro slot
    refine ⟨hpool.setSlot (by omega) slot, hnext, fun i hi hilt => ?_⟩
    rw [Group.filled_setSlot hlen]
    by_cases hlast : i = s.group.nextToStart
    · exact .inl (.inl hlast)
    · have hlt : i < s.group.nextToStart := by
        simp only [Group.setSlot] at hilt
        omega
      exact (hlive i hi hlt).imp_left Or.inr
  unfold continueCall
  refine leaves_throwSchedulerFailure hpool fun hnone => ?_
  cases prepared with
  | dispatch =>
    have hkeys : ∀ i, i ∈ (s.group.inFlight ++ [(s.group.nextToStart, false)]).map Prod.fst ↔
        s.group.Pending i ∨ i = s.group.nextToStart := by
      intro i
      rw [List.map_append, List.mem_append, List.map_singleton, List.mem_singleton]
      rfl
    refine ⟨?_, hnext, ?_⟩
    · exact
        { hpool with
          pool := by
            simp only [List.length_append, List.length_singleton]
            exact hroom
          pending_lt := by
            intro i hi
            rcases (hkeys i).mp hi with hi | rfl
            · exact hpool.pending_lt i hi
            · simp only
              omega
          pending_nodup := by
            simp only [List.map_append, List.map_singleton]
            refine List.nodup_append.mpr ⟨hpool.pending_nodup, by simp, ?_⟩
            intro a ha b hb heq
            rw [List.mem_singleton] at hb
            exact hpending (hb ▸ heq ▸ ha)
          outcome := by
            intro hnone i hi
            rcases List.mem_append.mp hi with hi | hi
            · exact hpool.outcome hnone i hi
            · simp at hi }
    · intro i hi hilt
      by_cases hlast : i = s.group.nextToStart
      · exact .inr ((hkeys i).mpr (.inr hlast))
      · have hlt : i < s.group.nextToStart := by
          simp only at hilt
          omega
        exact (hlive i hi hlt).imp_right fun hp => (hkeys i).mpr (.inl hp)
  | dispatchThrows error => exact hpool.failing
  | postResult result => exact hfill _
  | finalResult result => exact hfill _

theorem appendToolResult_spec (s : State ε κ) (block : ToolCallBlock)
    (result : ToolExecutionResult κ) (callSeq : Option ℕ) :
    Leaves
      (fun _ t => t = { s with
        log := s.log ++ [.toolResult (toolResultData settings block result) [callSeq]] })
      (fun _ t => t = s) (appendToolResult settings block result callSeq s) := by
  unfold appendToolResult
  refine leaves_bind (append_spec s _) ?_
  rintro seq t ⟨rfl, rfl⟩
  exact rfl

/-- The result of the first uncommitted call is on record, and its contexts are accepted. -/
theorem commit_spec (result : ToolExecutionResult κ) (h : AtPoint settings planned .finalize s) :
    Leaves (AtPoint settings planned) (fun _ => Failing settings planned)
      (commit settings result s) := by
  obtain ⟨hpool, hnext, hlive, hfilled⟩ := h
  have hcommitted := hpool.filled_lt hfilled
  have hstarted := hpool.started_le
  have hlt : s.group.committed < s.group.calls.length := by omega
  have hanswers := hpool.answers_length
  have hcalled := hpool.called
  obtain ⟨block, seq, hblock, hseq⟩ := hpool.block_at (i := s.answers.length) (by omega)
  have hgroupBlock : s.group.calls[s.group.committed] = block := by
    have hplanned := hpool.planned_at hlt
    rw [← hanswers, hblock] at hplanned
    exact (Option.some.inj hplanned).symm
  have hcites : s.group.callSeqs[s.group.committed]?.join = some seq := by
    rw [hpool.cites _ hcommitted, ← hanswers, hseq]
  -- the state after the result is on record, with some of its contexts
  have hrecord : ∀ (pre : List κ) (g : Group ε κ), pre <+: result.additionalContexts →
      g.inFlight = s.group.inFlight →
      Recorded settings planned
        { s with
          log := s.log ++ [.toolResult (toolResultData settings block result) [some seq]]
          outcomes := s.outcomes ++ [result]
          contexts := s.contexts ++ pre
          group := g } := by
    intro pre g hpre hg
    refine hpool.toRecorded.answer hblock hseq rfl ?_ rfl ?_ ?_ hg
      fun hpos => absurd hpool.unskipped (Nat.ne_of_gt hpos)
    · simp only [State.answers, hpool.unskipped, List.replicate_zero, List.append_nil]
    · have hsettled := hpool.settled
      have hclassified := hpool.classified
      simp only [List.length_append, List.length_singleton]
      omega
    · simp only [List.flatMap_append, List.flatMap_singleton, hpool.contexts_eq]
      exact (List.prefix_append_right_inj _).mpr hpre
  unfold commit
  rw [leaves_get_bind, dif_pos hlt, hgroupBlock, hcites]
  refine leaves_bind (leaves_mono (appendToolResult_spec s block result (some seq))
    (fun _ _ ht => ht) fun _ t ht => ht ▸ hpool.failing) ?_
  rintro _ t rfl
  rw [leaves_modify_bind]
  refine leaves_bind
    (leaves_forM (fun pre t => t = { s with
        log := s.log ++ [.toolResult (toolResultData settings block result) [some seq]]
        outcomes := s.outcomes ++ [result]
        contexts := s.contexts ++ pre }) ?_ ?_) ?_
  · rintro pre context rest hcontexts t rfl
    simp only [acceptContext]
    split
    · exact ⟨hrecord pre s.group ⟨_, hcontexts.symm⟩ rfl, hpool.unskipped⟩
    · simp only [leaves_ok, List.append_assoc]
  · simp only [List.append_nil]
  · rintro _ t rfl
    rw [leaves_modify_bind]
    refine commitReady_spec ?_ hnext ?_ (by simp only; omega)
    · refine
        { toRecorded := hrecord _ _ (List.prefix_refl _) rfl
          group_prefix := hpool.group_prefix
          single := hpool.single
          called := by
            simp only [callSeqs_toolResult]
            exact hpool.called
          classified := hpool.classified
          settled := by
            simp only [List.length_append, List.length_singleton, hpool.settled]
            omega
          unskipped := hpool.unskipped
          committed_le := hcommitted
          started_le := hpool.started_le
          slots_length := hpool.slots_length
          callSeqs_length := hpool.callSeqs_length
          cites := by
            simp only [callSeqs_toolResult]
            exact hpool.cites
          unfilled := hpool.unfilled
          pending_lt := hpool.pending_lt
          pending_nodup := hpool.pending_nodup
          outcome := hpool.outcome
          parallel := hpool.parallel
          contexts_eq := by
            simp only [List.flatMap_append, List.flatMap_singleton, hpool.contexts_eq]
          aborted := hpool.aborted }
    · intro i hi hilt
      exact hlive i (Nat.le_of_succ_le hi) hilt

/-- The dispatch that the race yields is taken from the map. -/
theorem afterRace_spec {index : ℕ} (h : AtPoint settings planned .race s)
    (hindex : (index, true) ∈ s.group.inFlight) :
    Leaves (AtPoint settings planned) (fun _ => Failing settings planned)
      ((afterRace index : Segment ε κ (Point ε)) s) := by
  obtain ⟨hpool, hw⟩ := h
  have hsub : ∀ i, i ∈ (s.group.inFlight.filter fun p => p.1 != index).map Prod.fst →
      s.group.Pending i := by
    intro i hi
    obtain ⟨p, hp, rfl⟩ := List.mem_map.mp hi
    exact List.mem_map_of_mem (List.mem_filter.mp hp).1
  have hpool' : Pool settings planned
      { s with group := { s.group with
          inFlight := s.group.inFlight.filter fun p => p.1 != index } } :=
    { hpool with
      pool := Nat.le_trans (List.length_filter_le _ _) hpool.pool
      pending_lt := fun i hi => hpool.pending_lt i (hsub i hi)
      pending_nodup := hpool.pending_nodup.sublist (List.filter_sublist.map Prod.fst)
      outcome := fun hnone i hi => hpool.outcome hnone i (List.mem_filter.mp hi).1 }
  have hstarted : index < s.group.started := hpool.pending_lt index (List.mem_map_of_mem hindex)
  unfold afterRace
  rw [leaves_modify_bind]
  refine leaves_throwSchedulerFailure hpool' fun hnone => ?_
  refine commitReady_spec hpool' hw.next_eq ?_ (by simp only; omega)
  intro i hi hilt
  by_cases hraced : i = index
  · exact .inl (hraced ▸ hpool.outcome hnone index hindex)
  · refine (hw.live i hi hilt).imp_right fun hp => ?_
    obtain ⟨p, hmem, rfl⟩ := List.mem_map.mp hp
    exact List.mem_map_of_mem (List.mem_filter.mpr ⟨hmem, by simpa using hraced⟩)

/-! ## Skipped calls -/

theorem rejecting_spec {segment : Segment ε κ (Point ε)} {err : ε → State ε κ → Prop}
    (h : Leaves (AtPoint settings planned)
      (fun _ t => Recorded settings planned t ∧ t.group.inFlight = []) (segment s)) :
    Leaves (AtPoint settings planned) err (rejecting segment s) :=
  leaves_tryCatch h fun _ _ ht => ht

/-- A skipped call gets its call event and the synthetic result at once. -/
theorem appendSkippedToolCall_spec {k : ℕ} {block : ToolCallBlock}
    (h : Between settings planned k s) (hsignal : s.signalAborted = true)
    (hblock : planned[s.next + k]? = some block) :
    Leaves
      (fun _ t => Between settings planned (k + 1) t ∧ t.next = s.next ∧ t.signalAborted = true)
      (fun _ t => Recorded settings planned t ∧ t.group.inFlight = [])
      (appendSkippedToolCall settings block s) := by
  have hcalled := h.called
  have hanswered := h.allAnswered
  unfold appendSkippedToolCall appendToolCall
  refine leaves_bind (leaves_mono (append_spec s _) (fun _ _ ht => ht)
    fun _ t ht => ht ▸ ⟨h.toRecorded, h.idle⟩) ?_
  rintro _ t ⟨rfl, rfl⟩
  have hlength : (callSeqs (s.log ++ [.toolCall (settings.firstSeq + s.log.length)
      (toolCallData settings block)])).length = s.next + k + 1 := by
    rw [callSeqs_toolCall, List.length_append, List.length_singleton, hcalled]
  have hcall : Recorded settings planned
      { s with log := s.log ++ [.toolCall (settings.firstSeq + s.log.length)
        (toolCallData settings block)] } := by
    refine h.toRecorded.call (by rw [hcalled, hblock]) rfl rfl rfl (Nat.le_refl _)
      (Nat.le_succ_of_le h.started) rfl rfl rfl (fun _ => rfl) ?_
    intro i j hi hj _
    have hlow : s.next + k ≤ i := hanswered ▸ hi.1
    have hhigh : i < s.next + k + 1 := hlength ▸ hi.2
    have hlow' : s.next + k ≤ j := hanswered ▸ hj.1
    have hhigh' : j < s.next + k + 1 := hlength ▸ hj.2
    omega
  refine leaves_bind (leaves_mono (appendToolResult_spec _ block abortedBeforeDispatch _)
    (fun _ _ ht => ht) fun _ t ht => ht ▸ ⟨hcall, h.idle⟩) ?_
  rintro _ t rfl
  have hseq : (callSeqs (s.log ++ [.toolCall (settings.firstSeq + s.log.length)
      (toolCallData settings block)]))[s.answers.length]?
      = some (settings.firstSeq + s.log.length) := by
    rw [callSeqs_toolCall, hanswered, ← hcalled, List.getElem?_concat_length]
  have hanswers : s.outcomes ++ List.replicate (s.skipped + 1) abortedBeforeDispatch
      = s.answers ++ [abortedBeforeDispatch] := by
    rw [List.replicate_succ', ← List.append_assoc]
    rfl
  refine ⟨?_, rfl, hsignal⟩
  exact
    { toRecorded := hcall.answer (hanswered ▸ hblock) hseq rfl hanswers rfl h.committed
        h.contexts rfl fun _ => ⟨hsignal, h.settled⟩
      idle := h.idle
      called := by
        simp only [callSeqs_toolResult, hlength]
        omega
      allAnswered := by
        change (s.outcomes ++ List.replicate (s.skipped + 1) abortedBeforeDispatch).length = _
        rw [hanswers, List.length_append, List.length_singleton, hanswered, Nat.add_assoc]
      settled := h.settled
      contexts_eq := h.contexts_eq }

theorem skip_spec {k : ℕ} {blocks : List ToolCallBlock} (h : Between settings planned k s)
    (hsignal : s.signalAborted = true) (hblocks : blocks <+: planned.drop (s.next + k)) :
    Leaves
      (fun _ t => Between settings planned (k + blocks.length) t ∧ t.next = s.next
        ∧ t.signalAborted = true)
      (fun _ t => Recorded settings planned t ∧ t.group.inFlight = [])
      (forM blocks (appendSkippedToolCall settings) s) := by
  refine leaves_forM (fun pre t => Between settings planned (k + pre.length) t
    ∧ t.next = s.next ∧ t.signalAborted = true) ?_ ⟨h, rfl, hsignal⟩
  rintro pre block rest rfl t ⟨hbetween, hnext, hsignal⟩
  have hblock : planned[t.next + (k + pre.length)]? = some block := by
    obtain ⟨tail, htail⟩ := hblocks
    rw [hnext, ← Nat.add_assoc, ← List.getElem?_drop, ← htail]
    simp
  refine leaves_mono (appendSkippedToolCall_spec hbetween hsignal hblock) ?_ fun _ _ hu => hu
  rintro _ u ⟨hbetween', hnext', hsignal'⟩
  rw [List.length_append, List.length_singleton]
  exact ⟨hbetween', hnext'.trans hnext, hsignal'⟩

/-! ## Between groups -/

/-- The pool has drained: every started call is committed, or the abort skips the rest. -/
theorem settleGroup_spec (h : Pool settings planned s) (hw : Waiting s.group)
    (hidle : s.group.inFlight = []) :
    Leaves (AtPoint settings planned) (fun error => AtPoint settings planned (.failed error))
      (settleGroup settings s) := by
  have hnopending : ∀ i, ¬ s.group.Pending i := by
    intro i hi
    rw [Group.Pending, hidle] at hi
    exact List.not_mem_nil hi
  have hcommitted : s.group.committed = s.group.started := by
    by_contra hne
    have hle := h.committed_le
    rcases hw.live s.group.committed (Nat.le_refl _) (by omega) with hfilled | hpending
    · exact hnopending _ (hw.drained hfilled)
    · exact hnopending _ hpending
  have hanswers := h.answers_length
  have hcalled := h.called
  have hplanned : s.next + s.group.calls.length ≤ planned.length := by
    have hle := h.group_prefix.length_le
    have hfits := h.fits
    rw [List.length_drop] at hle
    omega
  have hbetween : Between settings planned s.group.started s :=
    { toRecorded := h.toRecorded
      idle := hidle
      called := hcalled
      allAnswered := by omega
      settled := by rw [h.settled, h.classified, hcommitted]
      contexts_eq := h.contexts_eq }
  unfold settleGroup
  rw [leaves_get_bind]
  by_cases haborted : s.group.aborted = true
  · rw [if_pos haborted]
    refine rejecting_spec ?_
    have hblocks : s.group.calls.drop s.group.started <+:
        planned.drop (s.next + s.group.started) := by
      rw [← List.drop_drop]
      exact h.group_prefix.drop _
    refine leaves_bind (skip_spec hbetween (h.aborted haborted) hblocks) ?_
    rintro _ t ⟨ht, hnext, hsignal⟩
    have hstarted := h.started_le
    rw [List.length_drop, Nat.add_sub_cancel' hstarted] at ht
    exact ⟨ht, hnext.symm ▸ hplanned, fun _ => hsignal, fun hfalse => by simp at hfalse⟩
  · rw [if_neg haborted, if_neg (not_not_intro hcommitted)]
    have hstarted := h.started_le
    refine ⟨hbetween, ?_, fun htrue => by simp at htrue, fun _ => h.unskipped⟩
    simp only
    omega

/-- The pool waits for a dispatch, or is done. -/
theorem afterFill_spec (h : AtPoint settings planned .fillPool s) :
    Leaves (AtPoint settings planned) (fun error => AtPoint settings planned (.failed error))
      (afterFill settings s) := by
  unfold afterFill
  rw [leaves_get_bind]
  by_cases hbusy : 0 < s.group.inFlight.length
  · rw [if_pos hbusy]
    exact h
  · rw [if_neg hbusy]
    exact settleGroup_spec h.1 h.2 (List.length_eq_zero_iff.mp (by omega))

private theorem join_map_none (calls : List ToolCallBlock) (i : ℕ) :
    ((calls.map fun _ => (none : Option (Slot κ)))[i]?).join = none := by
  rw [List.getElem?_map]
  cases calls[i]? <;> rfl

theorem runGroup_spec (h : Between settings planned 0 s) (hskipped : s.skipped = 0)
    {calls : List ToolCallBlock} {mode : Mode} (hcalls : calls <+: planned.drop s.next)
    (hsingle : mode = .exclusive → calls.length ≤ 1)
    (hmode : ∀ block, calls[0]? = some block → s.executionMode block = .ok mode)
    {err : ε → State ε κ → Prop} :
    Leaves (AtPoint settings planned) err (runGroup settings calls mode s) := by
  unfold runGroup
  rw [leaves_modify_bind]
  have hanswers := h.allAnswered
  have hsettled : s.outcomes.length = s.next := by
    rw [State.answers, hskipped, List.replicate_zero, List.append_nil] at hanswers
    exact hanswers
  have hmodes : s.startModes.length = s.next := by rw [← h.settled, hsettled]
  refine inPool_spec (fillPool_spec ?_ ?_ fun _ => hmode)
  · exact
      { toRecorded := { h.toRecorded with pool := Nat.zero_le _ }
        group_prefix := hcalls
        single := hsingle
        called := h.called
        classified := hmodes
        settled := hsettled
        unskipped := hskipped
        committed_le := Nat.le_refl _
        started_le := Nat.zero_le _
        slots_length := List.length_map _
        callSeqs_length := List.length_map _
        cites := fun i hi => absurd hi (Nat.not_lt_zero i)
        unfilled := by
          intro i _ hfilled
          rw [Group.Filled, join_map_none] at hfilled
          exact Bool.noConfusion hfilled
        pending_lt := fun i hi => absurd hi List.not_mem_nil
        pending_nodup := List.nodup_nil
        outcome := fun _ i hi => absurd hi List.not_mem_nil
        parallel := by
          intro _ i hi hilt
          simp only at hi hilt
          omega
        contexts_eq := h.contexts_eq
        aborted := fun haborted => haborted }
  · refine ⟨rfl, fun i _ hi => absurd hi (Nat.not_lt_zero i), fun hfilled => ?_⟩
    rw [Group.Filled, join_map_none] at hfilled
    exact Bool.noConfusion hfilled

/-- The walk goes on with the next group, or has handled every call. -/
theorem nextGroup_spec (h : Between settings planned 0 s) (hskipped : s.skipped = 0) :
    Leaves (AtPoint settings planned) (fun error => AtPoint settings planned (.failed error))
      (nextGroup settings planned s) := by
  unfold nextGroup
  rw [leaves_get_bind]
  by_cases hlt : s.next < planned.length
  · rw [dif_pos hlt]
    cases hmode : s.executionMode planned[s.next] with
    | error error =>
      refine ⟨⟨h.toRecorded, hskipped⟩, ?_⟩
      rw [State.running, h.idle]
      rfl
    | ok mode =>
      have hdrop := List.drop_eq_getElem_cons hlt
      cases mode with
      | parallel =>
        refine runGroup_spec h hskipped (List.prefix_refl _) (fun hm => by simp at hm) ?_
        intro block hblock
        simp only [hdrop, List.getElem?_cons_zero, Option.some.injEq] at hblock
        rw [← hblock, hmode]
      | exclusive =>
        refine runGroup_spec h hskipped ?_ (fun _ => Nat.le_refl _) ?_
        · rw [hdrop]
          exact ⟨_, rfl⟩
        · intro block hblock
          have heq : planned[s.next] = block := by simpa using hblock
          rw [← heq, hmode]
  · rw [dif_neg hlt]
    have hfits := h.fits
    have hcalled := h.called
    refine ⟨?_, by omega⟩
    have hzero : planned.length - s.next = 0 := by omega
    rw [hzero]
    exact h

/-- The outcome of a group moves the walk past its calls, or ends it. -/
theorem continueWith_spec {outcome : GroupOutcome}
    (h : AtPoint settings planned (.outcome outcome) s) :
    Leaves (AtPoint settings planned) (fun error => AtPoint settings planned (.failed error))
      (continueWith settings planned outcome s) := by
  obtain ⟨hbetween, hle, habort, hclean⟩ := h
  unfold continueWith
  rw [leaves_modify_bind]
  have hbetween' : Between settings planned 0 { s with
      next := s.next + outcome.consumed
      concluded := s.concluded || outcome.concluded } :=
    { hbetween with }
  by_cases haborted : outcome.aborted = true
  · rw [if_pos haborted]
    refine rejecting_spec ?_
    rw [leaves_get_bind]
    refine leaves_bind (skip_spec hbetween' (habort haborted) (List.prefix_refl _)) ?_
    rintro _ t ⟨ht, hnext, _⟩
    rw [Nat.zero_add, List.length_drop, ← hnext] at ht
    exact ⟨ht, hnext.symm ▸ hle⟩
  · rw [if_neg haborted]
    exact nextGroup_spec hbetween' (hclean (by simpa using haborted))

end ToolCalls

end TianmaCoder
