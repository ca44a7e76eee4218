import TianmaCoder.Session.RepairBalance
import TianmaCoder.Tokens.TurnUsage

/-!
# The projection agrees with the turn disclosure

Over a completed turn whose accounting is exact, the running totals move by exactly that
accounting: every settlement is one attempt, a retry closes the slot of the attempt before it,
and the session invariant keeps turns and steps apart.

## Main results

* `usage_totals_exact` — the change of the totals over a turn.
-/

namespace TianmaCoder

open Checked

/-! ## Buckets -/

namespace TokenUsageProjection

/-- The sum of some samples. -/
def total (samples : List TokenUsageProjection) : TokenUsageProjection :=
  samples.foldr (· + ·) 0

theorem total_concat (samples : List TokenUsageProjection) (sample : TokenUsageProjection) :
    total (samples ++ [sample]) = total samples + sample := by
  induction samples with
  | nil => ext <;> simp [total]
  | cons first samples ih =>
    have hcons : ∀ rest, total (first :: rest) = first + total rest := fun _ => rfl
    rw [List.cons_append, hcons, hcons, ih]
    ext <;> simp <;> omega

theorem add_total_concat (a : TokenUsageProjection) (samples : List TokenUsageProjection)
    (sample : TokenUsageProjection) :
    a + total (samples ++ [sample]) = a + total samples + sample := by
  rw [total_concat]
  ext <;> simp <;> omega

theorem addReplacing_none (totals next : TokenUsageProjection) :
    addReplacing totals none next = totals + next := by
  ext <;> simp [addReplacing]

end TokenUsageProjection

/-- What an attempt adds to the totals. -/
def NormalizedAttempt.buckets (attempt : NormalizedAttempt) : TokenUsageProjection where
  uncachedInputTokens := attempt.inputTokens
  outputTokens := attempt.outputTokens
  cacheReadTokens := attempt.cacheReadTokens.getD 0
  cacheWriteTokens := attempt.cacheWriteTokens.getD 0

theorem intMember_of_count? {value : Option Json} {n : ℕ} (h : Json.count? value = some n) :
    intMember value = n := by
  rw [Json.eq_nat_of_count? h]
  rfl

theorem intMember_of_optionalCount {value : Option Json} {n : Option ℕ}
    (h : optionalCount value = some n) : intMember value = (n.getD 0 : ℕ) := by
  cases value with
  | none =>
    cases h
    rfl
  | some value =>
    rw [optionalCount, Option.map_eq_some_iff] at h
    obtain ⟨count, hcount, hn⟩ := h
    subst hn
    exact intMember_of_count? hcount

variable {route : Option TurnTokenUsageRoute}

/-- An attempt with exact counts adds the buckets it was reported with. -/
theorem buckets_of_normalizeUsage {usage : Json} {attempt : NormalizedAttempt}
    (h : normalizeUsage usage route = some attempt) : attempt.buckets = bucketsFrom usage := by
  simp only [normalizeUsage, Option.bind_eq_bind, Option.bind_eq_some_iff] at h
  obtain ⟨input, hinput, output, houtput, cacheRead, hread, cacheWrite, hwrite, _, _, h⟩ := h
  split at h
  · cases h
  · simp only [Option.bind_eq_some_iff, Option.some.injEq] at h
    obtain ⟨_, _, _, _, hattempt⟩ := h
    subst hattempt
    simp only [NormalizedAttempt.buckets, bucketsFrom, intMember_of_count? hinput,
      intMember_of_count? houtput, intMember_of_optionalCount hread,
      intMember_of_optionalCount hwrite]

/-! ## What one event of a turn does -/

/-- An attempt that has a settlement. -/
def AttemptState.isClosed : AttemptState → Bool
  | .finishClosed _ _ | .settled _ _ _ => true
  | _ => false

/-- The transitions of the disclosure. -/
inductive ScanMove (scan : TurnScan) (event : SessionEvent) : TurnScan → Prop
  | begin (htype : event.type = .turnStart) (hturn : scan.turn = none)
      (hstate : scan.state = .idle) :
      ScanMove scan event { scan with turn := some event.turn }
  | finish (htype : event.type = .turnEnd) (hturn : scan.turn = some event.turn)
      (hstate : scan.state = .idle) :
      ScanMove scan event { scan with sawEnd := true }
  | openStep (htype : event.type = .stepStart) (hturn : scan.turn = some event.turn)
      (hstate : scan.state = .idle) :
      ScanMove scan event { scan with state := .open event.turn event.step none }
  | reopen (htype : event.type = .llmRetryStarted) (hturn : scan.turn = some event.turn)
      (hstate : scan.state.isClosed = true) (hsame : scan.state.sameAttempt event = true) :
      ScanMove scan event { scan with state := .open event.turn event.step none }
  | settle (htype : event.type = .assistantMessage ∨ event.type = .assistantAttempt)
      (hturn : scan.turn = some event.turn) (turn step : Json) (before : Option Json)
      (hstate : scan.state = .open turn step before) (hsame : scan.state.sameAttempt event = true)
      (sample : Json) (hsample : (usageOf event).or before = some sample)
      (route : Option TurnTokenUsageRoute) (attempt : NormalizedAttempt)
      (hattempt : normalizeUsage sample route = some attempt) (closed : AttemptState)
      (hclosed : closed.isClosed = true) (hstill : closed.sameAttempt event = true) :
      ScanMove scan event { scan with state := closed, attempts := scan.attempts ++ [attempt] }
  | late (turn step sample : Json) (hstate : scan.state = .open turn step (some sample))
      (scan' : TurnScan) : ScanMove scan event scan'
  | retry (htype : event.type = .llmRetry) (hturn : scan.turn = some event.turn)
      (hstate : scan.state.isClosed = true) (hsame : scan.state.sameAttempt event = true) :
      ScanMove scan event { scan with state := .settled event.turn event.step .retry }
  | endStep (htype : event.type = .stepEnd) (hturn : scan.turn = some event.turn)
      (hstate : scan.state.isClosed = true) (hsame : scan.state.sameAttempt event = true) :
      ScanMove scan event { scan with state := .idle }
  | other (htype : event.type ∉ [EventType.turnStart, .turnEnd, .stepStart, .llmRetryStarted,
        .assistantMessage, .assistantAttempt, .llmRetry, .stepEnd])
      (hturn : scan.turn.isSome = true) : ScanMove scan event scan

variable {event : SessionEvent} {scan scan' : TurnScan}

/-- A settlement closes the open attempt with its sample. -/
theorem settle_cases {turn : Json} {closed : AttemptState}
    (htype : event.type = .assistantMessage ∨ event.type = .assistantAttempt)
    (hturn : scan.turn = some turn) (hclosed : closed.isClosed = true)
    (hstill : event.turn = turn → closed.sameAttempt event = true)
    (h : scan.settle turn event route closed = some scan') : ScanMove scan event scan' := by
  unfold TurnScan.settle at h
  split at h
  · next step before hstate =>
      split at h
      · next hsame =>
          simp only [Option.bind_eq_bind, Option.bind_eq_some_iff, Option.some.injEq] at h
          obtain ⟨attempts, hattempts, hscan⟩ := h
          subst hscan
          unfold TurnScan.closeOpen at hattempts
          split at hattempts
          · next sample hopen =>
              rw [Option.map_eq_some_iff] at hattempts
              obtain ⟨attempt, hattempt, hlist⟩ := hattempts
              subst hlist
              simp only [AttemptState.open.injEq] at hopen
              refine .settle htype (hsame.1 ▸ hturn) _ _ _ hstate hsame.2 sample hopen.2.2 route
                attempt hattempt closed hclosed (hstill hsame.1)
          · cases hattempts
      · cases h
  · cases h

/-- An attempt that closes without a settlement had a sample. -/
theorem late_of_closeOpen {attempts : List NormalizedAttempt}
    (h : scan.closeOpen route = some attempts) : ScanMove scan event scan' := by
  unfold TurnScan.closeOpen at h
  split at h
  · next sample' hopen => exact .late _ _ sample' hopen scan'
  · cases h

/-- Everything an event of a valid turn does to the disclosure. -/
theorem step_cases (h : scan.step event = some scan') : ScanMove scan event scan' := by
  unfold TurnScan.step at h
  split at h
  · next hturn =>
      split at h
      · next hbegin =>
          cases h
          exact .begin hbegin.1 hturn hbegin.2
      · cases h
  · next turn hturn =>
      split at h
      · cases h
      · next htype =>
          split at h
          · next hfinish =>
              cases h
              exact .finish htype (hfinish.1 ▸ hturn) hfinish.2.1
          · cases h
      · next hnotStart hnotEnd =>
          split at h
          · cases h
          · split at h
            · next htype =>
                split at h
                · next hopen =>
                    cases h
                    rw [← hopen.1]
                    exact .openStep htype (hopen.1 ▸ hturn) hopen.2
                · cases h
            · next htype =>
                split at h
                · next hstate =>
                    split at h
                    · next hsame =>
                        cases h
                        rw [← hsame.1]
                        exact .reopen htype (hsame.1 ▸ hturn) (by rw [hstate]; rfl) hsame.2
                    · cases h
                · cases h
            · next htype =>
                refine settle_cases (.inr htype) hturn rfl ?_ h
                intro hsame
                simp [AttemptState.sameAttempt, hsame]
            · next htype =>
                refine settle_cases (.inl htype) hturn rfl ?_ h
                intro hsame
                simp [AttemptState.sameAttempt, hsame]
            · next htype =>
                split at h
                · next hsame =>
                    rw [← hsame.1] at h hturn
                    split at h
                    · obtain ⟨attempts, hattempts, _⟩ := Option.map_eq_some_iff.mp h
                      exact late_of_closeOpen hattempts
                    · next hstate =>
                        cases h
                        exact .retry htype hturn (by rw [hstate]; rfl) hsame.2
                    · cases h
                · cases h
            · next htype =>
                split at h
                · next hsame =>
                    rw [← hsame.1] at hturn
                    split at h
                    · obtain ⟨attempts, hattempts, _⟩ := Option.map_eq_some_iff.mp h
                      exact late_of_closeOpen hattempts
                    · next hnotOpen =>
                        cases h
                        refine .endStep htype hturn ?_ hsame.2
                        cases hstate : scan.state with
                        | idle => rw [hstate] at hsame; cases hsame.2
                        | «open» turn step sample => exact absurd hstate (hnotOpen turn step sample)
                        | finishClosed => rfl
                        | settled => rfl
                · cases h
            · next h₁ h₂ h₃ h₄ h₅ h₆ =>
                cases h
                refine .other ?_ (by rw [hturn]; rfl)
                simp only [List.mem_cons, List.not_mem_nil, or_false, not_or]
                exact ⟨hnotStart, hnotEnd, h₁, h₂, h₄, h₃, h₅, h₆⟩

/-! ## The trace and the projection -/

section Trace

variable {trace trace' : SessionTrace} {event : SessionEvent}

section

variable (h : TraceMove trace event trace')
include h

theorem TraceMove.same_turn (hs : event.type ≠ .turnStart)
    (he : event.type ≠ .turnEnd) :
    trace'.openTurn = trace.openTurn ∧ trace'.nextTurn = trace.nextTurn := by
  cases h with
  | turnStart htype => exact absurd htype hs
  | turnEnd htype => exact absurd htype he
  | _ => exact ⟨rfl, rfl⟩

theorem TraceMove.same_step (hs : event.type ≠ .turnStart)
    (he : event.type ≠ .stepEnd) : trace'.nextStep = trace.nextStep := by
  cases h with
  | turnStart htype => exact absurd htype hs
  | stepEnd htype => exact absurd htype he
  | _ => rfl

theorem TraceMove.step_number
    (htype : event.type = .stepStart) : event.step = .nat trace.nextStep := by
  cases h with
  | stepStart _ _ _ hnumber => exact hnumber
  | other hnot => simp [htype] at hnot
  | turnStart hother | turnEnd hother | stepEnd hother | inStep hother | toolCall hother
  | rewrite hother | result hother => simp [htype] at hother

theorem TraceMove.turn_number (htype : event.type = .turnStart) :
    trace.openTurn = none ∧ event.turn = .nat trace.nextTurn := by
  cases h with
  | turnStart _ hturn hnumber => exact ⟨hturn, hnumber⟩
  | other hnot => simp [htype] at hnot
  | turnEnd hother | stepStart hother | stepEnd hother | inStep hother | toolCall hother
  | rewrite hother | result hother => simp [htype] at hother

theorem TraceMove.next_step (htype : event.type = .stepEnd) :
    trace'.nextStep = trace.nextStep + 1 := by
  cases h with
  | stepEnd => rfl
  | other hnot => simp [htype] at hnot
  | turnStart hother | turnEnd hother | stepStart hother | inStep hother | toolCall hother
  | rewrite hother | result hother => simp [htype] at hother

theorem TraceMove.in_turn
    (htype : event.type = .assistantMessage ∨ event.type = .assistantAttempt) :
    trace.openTurn = some event.turn := by
  cases h with
  | inStep _ hturn => exact hturn
  | other hnot => rcases htype with htype | htype <;> simp [htype] at hnot
  | turnStart hother | turnEnd hother | stepStart hother | stepEnd hother | toolCall hother
  | rewrite hother | result hother => rcases htype with htype | htype <;> simp [htype] at hother

end

end Trace

theorem usageOf_quiet (hmessage : event.type ≠ .assistantMessage)
    (hattempt : event.type ≠ .assistantAttempt) : usageOf event = none := by
  unfold usageOf
  split
  · next htype => exact absurd htype hmessage
  · next htype => exact absurd htype hattempt
  · rfl

namespace TokenUsageState

variable (state : TokenUsageState) {event : SessionEvent}

theorem apply_quiet (hmessage : event.type ≠ .assistantMessage)
    (hattempt : event.type ≠ .assistantAttempt) (hretry : event.type ≠ .llmRetryStarted) :
    state.apply event = state := by
  unfold apply
  split
  · next htype => exact absurd htype hretry
  · next htype => exact absurd htype hmessage
  · next htype => exact absurd htype hattempt
  · rfl

/-- A sample that replaces none is added. -/
theorem apply_settlement (htype : event.type = .assistantMessage ∨ event.type = .assistantAttempt)
    {usage : Json} (husage : usageOf event = some usage) (hprevious : state.previous event = none) :
    state.apply event =
      ⟨state.totals + bucketsFrom usage, some ⟨event.turn, event.step, bucketsFrom usage⟩⟩ := by
  rcases htype with htype | htype
  · simp [apply, htype, husage, hprevious, TokenUsageProjection.addReplacing_none]
  · simp [apply, htype, husage, hprevious, TokenUsageProjection.addReplacing_none]

theorem last_apply {last : LastSample} (h : (state.apply event).last = some last) :
    state.last = some last ∨
      ((event.type = .assistantMessage ∨ event.type = .assistantAttempt) ∧
        last.turn = event.turn) := by
  unfold apply at h
  split at h
  · split at h
    · cases h
    · exact .inl h
  · next htype =>
      split at h
      · exact .inl h
      · simp only at h
        split at h
        · exact .inl h
        · cases h
          exact .inr ⟨.inl htype, rfl⟩
  · next htype =>
      split at h
      · exact .inl h
      · simp only at h
        split at h
        · exact .inl h
        · cases h
          exact .inr ⟨.inr htype, rfl⟩
  · exact .inl h

end TokenUsageState

/-- Outside and inside of turns, the last sample is of the open turn or an earlier one. -/
structure Sampled (state : TokenUsageState) (trace : SessionTrace) : Prop where
  openTurn : ∀ turn, trace.openTurn = some turn → turn = .nat trace.nextTurn
  last : ∀ last, state.last = some last → ∃ k, last.turn = .nat k ∧ k ≤ trace.nextTurn ∧
    (k = trace.nextTurn → trace.openTurn.isSome = true)

variable {trace trace' : SessionTrace} {state : TokenUsageState}

theorem Sampled.step (h : Sampled state trace) (hmove : TraceMove trace event trace') :
    Sampled (state.apply event) trace' := by
  by_cases hstart : event.type = .turnStart
  · have hquiet : state.apply event = state :=
      state.apply_quiet (by simp [hstart]) (by simp [hstart]) (by simp [hstart])
    rw [hquiet]
    cases hmove with
    | turnStart _ _ hnumber =>
      refine ⟨?_, ?_⟩
      · intro turn hturn
        cases hturn
        exact hnumber
      · intro last hlast
        obtain ⟨k, hk, hle, _⟩ := h.last last hlast
        exact ⟨k, hk, hle, fun _ => rfl⟩
    | other hnot => simp [hstart] at hnot
    | turnEnd hother | stepStart hother | stepEnd hother | inStep hother | toolCall hother
    | rewrite hother | result hother => simp [hstart] at hother
  · by_cases hend : event.type = .turnEnd
    · have hquiet : state.apply event = state :=
        state.apply_quiet (by simp [hend]) (by simp [hend]) (by simp [hend])
      rw [hquiet]
      cases hmove with
      | turnEnd =>
        refine ⟨(fun turn hturn => by cases hturn), ?_⟩
        intro last hlast
        obtain ⟨k, hk, hle, _⟩ := h.last last hlast
        refine ⟨k, hk, Nat.le_succ_of_le hle, ?_⟩
        intro heq
        simp only at heq
        omega
      | other hnot => simp [hend] at hnot
      | turnStart hother | stepStart hother | stepEnd hother | inStep hother | toolCall hother
      | rewrite hother | result hother => simp [hend] at hother
    · obtain ⟨hopen, hnext⟩ := hmove.same_turn hstart hend
      refine ⟨?_, ?_⟩
      · intro turn hturn
        rw [hnext]
        exact h.openTurn turn (hopen ▸ hturn)
      · intro last hlast
        rw [hopen, hnext]
        rcases state.last_apply hlast with hold | ⟨htype, hturn⟩
        · exact h.last last hold
        · have hin := hmove.in_turn htype
          exact ⟨trace.nextTurn, hturn.trans (h.openTurn _ hin), Nat.le_refl _,
            fun _ => by rw [hin]; rfl⟩

/-- The unit beside the trace of an accepted log. -/
theorem sampled_of_runTrace {log : List SessionEvent} (h : runTrace log = .ok trace) :
    Sampled (tokenUsage log) trace := by
  refine foldlM_induction (motive := fun log trace => Sampled (tokenUsage log) trace) h ?_ ?_
  · exact ⟨(fun turn hturn => by cases hturn), (fun last hlast => by cases hlast)⟩
  · intro log event trace trace' _ ih hstep
    have hsnoc : tokenUsage (log ++ [event]) = (tokenUsage log).apply event := by
      simp [tokenUsage]
    rw [hsnoc]
    exact ih.step (traceEvent_cases hstep).2

/-! ## A turn under way -/

/-- The samples that a log reports, in order. -/
def samplesOf (log : List SessionEvent) : List TokenUsageProjection :=
  (log.filterMap usageOf).map bucketsFrom

theorem samplesOf_concat_quiet (events : List SessionEvent) (h : usageOf event = none) :
    samplesOf (events ++ [event]) = samplesOf events := by
  simp [samplesOf, h]

variable {events : List SessionEvent}

theorem samplesOf_concat {usage : Json} (h : usageOf event = some usage) :
    samplesOf (events ++ [event]) = samplesOf events ++ [bucketsFrom usage] := by
  simp [samplesOf, h]

/-- The two folds while a turn is under way: the totals have moved by the attempts closed so far,
which are the samples reported so far, and the slot holds no sample of an open attempt. -/
structure Within (base : TokenUsageProjection) (events : List SessionEvent) (scan : TurnScan)
    (state : TokenUsageState) (nextStep : ℕ) : Prop where
  totals : state.totals = base + TokenUsageProjection.total (samplesOf events)
  samples : scan.attempts.map NormalizedAttempt.buckets = samplesOf events
  unsampled : ∀ turn step sample, scan.state = .open turn step sample → sample = none
  number : ∀ event, scan.state.sameAttempt event = true → event.step = .nat nextStep
  fresh : ∀ last, state.last = some last → scan.turn = some last.turn →
    ∃ n, last.step = .nat n ∧ n ≤ nextStep ∧ (n = nextStep → scan.state.isClosed = true)

namespace Within

variable {base : TokenUsageProjection} {events : List SessionEvent} {scan : TurnScan}
  {state : TokenUsageState} {nextStep : ℕ} {event : SessionEvent}

/-- An event without a usage that leaves the slot alone. -/
theorem quiet (h : Within base events scan state nextStep) (event : SessionEvent)
    (hmessage : event.type ≠ .assistantMessage) (hattempt : event.type ≠ .assistantAttempt)
    (hretry : event.type ≠ .llmRetryStarted) :
    Within base (events ++ [event]) scan (state.apply event) nextStep := by
  have hsamples := samplesOf_concat_quiet events (usageOf_quiet hmessage hattempt)
  rw [state.apply_quiet hmessage hattempt hretry]
  exact ⟨hsamples ▸ h.totals, hsamples ▸ h.samples, h.unsampled, h.number, h.fresh⟩

/-- Before a turn no attempt is closed, and its samples are fresh. -/
theorem begun (nextStep : ℕ) (hstate : scan.state = .idle) (hattempts : scan.attempts = [])
    (hfresh : ∀ last, state.last = some last → event.turn ≠ last.turn) :
    Within state.totals [] { scan with turn := some event.turn } state nextStep where
  totals := by ext <;> simp [samplesOf, TokenUsageProjection.total]
  samples := by simp [hattempts, samplesOf]
  unsampled := by
    intro turn step sample hopen
    simp [hstate] at hopen
  number := by
    intro other hsame
    simp [hstate, AttemptState.sameAttempt] at hsame
  fresh := by
    intro last hlast hturn
    exact absurd (Option.some.inj hturn) (hfresh last hlast)

section

variable (h : Within base events scan state nextStep)
include h

theorem openStep (hstate : scan.state = .idle)
    (hnumber : event.step = .nat nextStep) :
    Within base events { scan with state := .open event.turn event.step none } state nextStep where
  totals := h.totals
  samples := h.samples
  unsampled := by
    intro turn step sample hopen
    simp only [AttemptState.open.injEq] at hopen
    exact hopen.2.2.symm
  number := by
    intro other hsame
    simp only [AttemptState.sameAttempt, Bool.and_eq_true, decide_eq_true_eq] at hsame
    rw [← hsame.2]
    exact hnumber
  fresh := by
    intro last hlast hturn
    obtain ⟨n, hn, hle, hclosed⟩ := h.fresh last hlast hturn
    refine ⟨n, hn, hle, ?_⟩
    intro heq
    simp [hstate, AttemptState.isClosed] at hclosed
    exact absurd heq hclosed

/-- A started retry opens the attempt again and clears its slot. -/
theorem reopen (htype : event.type = .llmRetryStarted)
    (hturn : scan.turn = some event.turn) (hsame : scan.state.sameAttempt event = true) :
    Within base (events ++ [event]) { scan with state := .open event.turn event.step none }
      (state.apply event) nextStep := by
  have hsamples : samplesOf (events ++ [event]) = samplesOf events :=
    samplesOf_concat_quiet events (usageOf_quiet (by simp [htype]) (by simp [htype]))
  have hnumber := h.number event hsame
  refine ⟨?_, hsamples ▸ h.samples, ?_, ?_, ?_⟩
  · have htotals : (state.apply event).totals = state.totals := by
      simp only [TokenUsageState.apply, htype]
      split <;> rfl
    rw [htotals, hsamples]
    exact h.totals
  · intro turn step sample hopen
    simp only [AttemptState.open.injEq] at hopen
    exact hopen.2.2.symm
  · intro other hother
    simp only [AttemptState.sameAttempt, Bool.and_eq_true, decide_eq_true_eq] at hother
    rw [← hother.2]
    exact hnumber
  · intro last hlast hlastTurn
    simp only [TokenUsageState.apply, htype] at hlast
    split at hlast
    · cases hlast
    · next hprevious =>
        obtain ⟨n, hn, hle, _⟩ := h.fresh last hlast hlastTurn
        refine ⟨n, hn, hle, ?_⟩
        intro heq
        -- the slot would hold a sample of the attempt that is opened again
        have hsameTurn : last.turn = event.turn :=
          Option.some.inj (hlastTurn.symm.trans hturn)
        have hsameStep : last.step = event.step := by rw [hn, heq, hnumber]
        exact absurd (by simp [TokenUsageState.previous, hlast, hsameTurn, hsameStep]) hprevious

/-- A settlement adds its sample to both. -/
theorem settle
    (htype : event.type = .assistantMessage ∨ event.type = .assistantAttempt)
    (hturn : scan.turn = some event.turn) {turn step : Json} {before : Option Json}
    (hstate : scan.state = .open turn step before) (hsame : scan.state.sameAttempt event = true)
    {sample : Json} (hsample : (usageOf event).or before = some sample)
    {attempt : NormalizedAttempt} (hattempt : normalizeUsage sample route = some attempt)
    {closed : AttemptState} (hclosed : closed.isClosed = true)
    (hstill : closed.sameAttempt event = true) :
    Within base (events ++ [event])
      { scan with state := closed, attempts := scan.attempts ++ [attempt] }
      (state.apply event) nextStep := by
  have husage : usageOf event = some sample := by
    rw [h.unsampled turn step before hstate, Option.or_none] at hsample
    exact hsample
  have hnumber := h.number event hsame
  have hprevious : state.previous event = none := by
    unfold TokenUsageState.previous
    split
    · rfl
    · next last hlast =>
        split
        · next hattempt =>
            obtain ⟨n, hn, _, hopen⟩ := h.fresh last hlast (hattempt.1 ▸ hturn)
            have heq : n = nextStep := by
              have hnat : Json.nat n = Json.nat nextStep := by
                rw [← hn, hattempt.2, hnumber]
              exact Json.nat_inj.mp hnat
            have := hopen heq
            simp [hstate, AttemptState.isClosed] at this
        · rfl
  rw [state.apply_settlement htype husage hprevious]
  refine ⟨?_, ?_, ?_, ?_, ?_⟩
  · rw [samplesOf_concat husage, TokenUsageProjection.add_total_concat, ← h.totals]
  · rw [samplesOf_concat husage, List.map_append, h.samples]
    simp [buckets_of_normalizeUsage hattempt]
  · intro turn step sample hopen
    simp only at hopen
    simp [hopen, AttemptState.isClosed] at hclosed
  · intro other hother
    have hstep : other.step = event.step := by
      cases hform : closed with
      | idle => simp [hform, AttemptState.isClosed] at hclosed
      | «open» => simp [hform, AttemptState.isClosed] at hclosed
      | finishClosed turn step =>
        simp [hform, AttemptState.sameAttempt] at hother hstill
        exact hother.2.symm.trans hstill.2
      | settled turn step =>
        simp [hform, AttemptState.sameAttempt] at hother hstill
        exact hother.2.symm.trans hstill.2
    rw [hstep]
    exact hnumber
  · intro last hlast _
    cases hlast
    exact ⟨nextStep, hnumber, Nat.le_refl _, fun _ => hclosed⟩

/-- A retry settles the closed attempt. -/
theorem retry
    (hsame : scan.state.sameAttempt event = true) :
    Within base events { scan with state := .settled event.turn event.step .retry } state
      nextStep where
  totals := h.totals
  samples := h.samples
  unsampled := by
    intro turn step sample hopen
    cases hopen
  number := by
    intro other hother
    simp only [AttemptState.sameAttempt, Bool.and_eq_true, decide_eq_true_eq] at hother
    rw [← hother.2]
    exact h.number event hsame
  fresh := by
    intro last hlast hturn
    obtain ⟨n, hn, hle, _⟩ := h.fresh last hlast hturn
    exact ⟨n, hn, hle, fun _ => rfl⟩

/-- The end of a step moves on to the next number. -/
theorem endStep :
    Within base events { scan with state := .idle } state (nextStep + 1) where
  totals := h.totals
  samples := h.samples
  unsampled := by
    intro turn step sample hopen
    cases hopen
  number := by
    intro other hother
    cases hother
  fresh := by
    intro last hlast hturn
    obtain ⟨n, hn, hle, _⟩ := h.fresh last hlast hturn
    refine ⟨n, hn, by omega, ?_⟩
    intro heq
    omega

end

end Within

/-- One event of a turn under way keeps the two folds together. -/
theorem Within.step {base : TokenUsageProjection} (h : Within base events scan state trace.nextStep)
    (hturn : scan.turn.isSome = true) (hscan : ScanMove scan event scan')
    (hmove : TraceMove trace event trace') :
    Within base (events ++ [event]) scan' (state.apply event) trace'.nextStep ∧
      scan'.turn.isSome = true := by
  cases hscan with
  | begin _ hnone => simp [hnone] at hturn
  | late turn step sample hstate => cases h.unsampled turn step _ hstate
  | finish htype =>
    have hq := h.quiet event (by simp [htype]) (by simp [htype]) (by simp [htype])
    rw [hmove.same_step (by simp [htype]) (by simp [htype])]
    exact ⟨⟨hq.totals, hq.samples, hq.unsampled, hq.number, hq.fresh⟩, hturn⟩
  | openStep htype _ hstate =>
    have hq := h.quiet event (by simp [htype]) (by simp [htype]) (by simp [htype])
    rw [hmove.same_step (by simp [htype]) (by simp [htype])]
    exact ⟨hq.openStep hstate (hmove.step_number htype), hturn⟩
  | reopen htype hscanTurn _ hsame =>
    rw [hmove.same_step (by simp [htype]) (by simp [htype])]
    exact ⟨h.reopen htype hscanTurn hsame, hturn⟩
  | settle htype hscanTurn turn step before hstate hsame sample hsample route attempt hattempt closed
      hclosed hstill =>
      rw [hmove.same_step (by rcases htype with htype | htype <;> simp [htype])
        (by rcases htype with htype | htype <;> simp [htype])]
      exact ⟨h.settle htype hscanTurn hstate hsame hsample hattempt hclosed hstill, hturn⟩
  | retry htype _ _ hsame =>
    have hq := h.quiet event (by simp [htype]) (by simp [htype]) (by simp [htype])
    rw [hmove.same_step (by simp [htype]) (by simp [htype])]
    exact ⟨hq.retry hsame, hturn⟩
  | endStep htype =>
    have hq := h.quiet event (by simp [htype]) (by simp [htype]) (by simp [htype])
    rw [hmove.next_step htype]
    exact ⟨hq.endStep, hturn⟩
  | other hnot =>
    simp only [List.mem_cons, List.not_mem_nil, or_false, not_or] at hnot
    obtain ⟨hstart, _, _, hretry, hmessage, hattempt, _, hend⟩ := hnot
    rw [hmove.same_step hstart hend]
    exact ⟨h.quiet event hmessage hattempt hretry, hturn⟩

theorem Within.run {base : TokenUsageProjection} {rest : List SessionEvent}
    (h : Within base events scan state trace.nextStep) (hturn : scan.turn.isSome = true)
    (hscan : rest.foldlM TurnScan.step scan = some scan')
    (htrace : rest.foldlM traceEvent trace = .ok trace') :
    Within base (events ++ rest) scan' (rest.foldl TokenUsageState.apply state)
      trace'.nextStep := by
  induction rest generalizing events scan state trace with
  | nil =>
    cases hscan
    cases htrace
    rw [List.append_nil]
    exact h
  | cons event rest ih =>
    rw [List.foldlM_cons] at hscan htrace
    obtain ⟨next, hnext, hscan⟩ := Option.bind_eq_some_iff.mp hscan
    obtain ⟨traced, htraced, htrace⟩ := bind_ok htrace
    obtain ⟨hstep, hturn'⟩ := h.step hturn (step_cases hnext) (traceEvent_cases htraced).2
    have hrest := ih hstep hturn' hscan htrace
    rw [List.append_assoc] at hrest
    exact hrest

/-! ## The accounting of a completed turn -/

theorem safeSum_eq {values : List ℕ} {n : ℕ} (h : safeSum values = some n) : values.sum = n := by
  have hfold : ∀ start, values.foldlM (fun total value =>
      if total + value ≤ Json.maxSafeInteger then some (total + value) else none) start = some n →
      start + values.sum = n := by
    clear h
    induction values with
    | nil =>
      intro start h
      cases h
      rfl
    | cons value values ih =>
      intro start h
      rw [List.foldlM_cons] at h
      obtain ⟨next, hnext, hrest⟩ := Option.bind_eq_some_iff.mp h
      split at hnext
      · cases hnext
        have hsum := ih _ hrest
        rw [List.sum_cons]
        omega
      · cases hnext
  have hsum := hfold 0 h
  omega

theorem bucketSum_eq {values : List (Option ℕ)} {n : ℕ} (h : bucketSum values = some n) :
    (values.map fun value => value.getD 0).sum = n := by
  unfold bucketSum at h
  split at h
  · next hall =>
      have hsum := safeSum_eq h
      have hknown : ∀ {values : List (Option ℕ)}, values.all Option.isSome = true →
          (values.map fun value => value.getD 0) = values.filterMap id := by
        intro values hall
        induction values with
        | nil => rfl
        | cons value values ih =>
          rw [List.all_cons, Bool.and_eq_true] at hall
          obtain ⟨count, hcount⟩ := Option.isSome_iff_exists.mp hall.1
          simp [hcount, ih hall.2]
      rw [hknown hall]
      exact hsum
  · cases h

theorem bucket_total (bucket : TokenUsageProjection → ℤ) {count : NormalizedAttempt → ℕ}
    (hzero : bucket 0 = 0) (hadd : ∀ a b, bucket (a + b) = bucket a + bucket b)
    (hcount : ∀ attempt : NormalizedAttempt, bucket attempt.buckets = count attempt)
    (attempts : List NormalizedAttempt) :
    bucket (TokenUsageProjection.total (attempts.map NormalizedAttempt.buckets)) =
      ((attempts.map count).sum : ℕ) := by
  induction attempts with
  | nil => exact hzero
  | cons attempt attempts ih =>
    rw [List.map_cons, List.map_cons, List.sum_cons, Nat.cast_add, ← ih, ← hcount]
    exact hadd _ _

/-- The accounting states the buckets of a total. -/
structure TurnTokenUsage.Accounts (usage : TurnTokenUsage) (change : TokenUsageProjection) :
    Prop where
  uncachedInputTokens : change.uncachedInputTokens = usage.uncachedInputTokens
  outputTokens : change.outputTokens = usage.outputTokens
  cacheReadTokens : ∀ n, usage.cacheReadTokens = some n → change.cacheReadTokens = n
  cacheWriteTokens : ∀ n, usage.cacheWriteTokens = some n → change.cacheWriteTokens = n

theorem accounts_of_aggregateAttempts {attempts : List NormalizedAttempt} {usage : TurnTokenUsage}
    (h : aggregateAttempts attempts = some usage) :
    usage.Accounts (TokenUsageProjection.total (attempts.map NormalizedAttempt.buckets)) := by
  unfold aggregateAttempts at h
  split at h
  · cases h
  · simp only [Option.bind_eq_bind, Option.bind_eq_some_iff, Option.some.injEq] at h
    obtain ⟨input, hinput, output, houtput, total, _, husage⟩ := h
    subst husage
    refine ⟨?_, ?_, ?_, ?_⟩
    · rw [← safeSum_eq hinput]
      exact bucket_total (·.uncachedInputTokens) rfl (fun _ _ => rfl) (fun _ => rfl) _
    · rw [← safeSum_eq houtput]
      exact bucket_total (·.outputTokens) rfl (fun _ _ => rfl) (fun _ => rfl) _
    · intro n hn
      rw [← bucketSum_eq hn, List.map_map]
      exact bucket_total (·.cacheReadTokens) rfl (fun _ _ => rfl) (fun _ => rfl) _
    · intro n hn
      rw [← bucketSum_eq hn, List.map_map]
      exact bucket_total (·.cacheWriteTokens) rfl (fun _ _ => rfl) (fun _ => rfl) _

/-- A completed turn begins with its start. -/
theorem deriveTurnTokenUsage_some {usage : TurnTokenUsage}
    (h : deriveTurnTokenUsage events = some usage) :
    ∃ start rest scan, events = start :: rest ∧ start.type = .turnStart ∧
      rest.foldlM TurnScan.step { TurnScan.init with turn := some start.turn } = some scan ∧
      aggregateAttempts scan.attempts = some usage := by
  unfold deriveTurnTokenUsage at h
  obtain ⟨scan, hscan, hvalue⟩ := Option.bind_eq_some_iff.mp h
  split at hvalue
  · cases hvalue
  · cases events with
    | nil =>
      cases hscan
      cases hvalue
    | cons start rest =>
      rw [List.foldlM_cons] at hscan
      obtain ⟨next, hnext, hrest⟩ := Option.bind_eq_some_iff.mp hscan
      simp only [TurnScan.step, TurnScan.init, Option.ite_none_right_eq_some,
        Option.some.injEq] at hnext
      obtain ⟨htype, hbegun⟩ := hnext
      rw [← hbegun] at hrest
      exact ⟨start, rest, scan, rfl, htype.1, hrest, hvalue⟩

/-- A completed turn whose accounting is exact moves the totals by that accounting, which is each
sample of its settlements once. -/
theorem usage_totals_exact (pre events post : List SessionEvent) {trace : SessionTrace}
    (hlog : runTrace (pre ++ events ++ post) = .ok trace) {usage : TurnTokenUsage}
    (h : deriveTurnTokenUsage events = some usage) :
    ∃ change, (tokenUsage (pre ++ events)).totals = (tokenUsage pre).totals + change ∧
      usage.Accounts change ∧ change = TokenUsageProjection.total (samplesOf events) := by
  obtain ⟨start, rest, scan, hevents, htype, hscan, hattempts⟩ := deriveTurnTokenUsage_some h
  subst hevents
  unfold runTrace at hlog
  rw [List.foldlM_append, bind_ok_iff] at hlog
  obtain ⟨after, hlog, _⟩ := hlog
  rw [List.foldlM_append, bind_ok_iff] at hlog
  obtain ⟨before, hpre, hlog⟩ := hlog
  rw [List.foldlM_cons, bind_ok_iff] at hlog
  obtain ⟨begun, hbegun, hrest⟩ := hlog
  have hsampled := sampled_of_runTrace hpre
  have hmove := (traceEvent_cases hbegun).2
  have hquiet : (tokenUsage pre).apply start = tokenUsage pre :=
    (tokenUsage pre).apply_quiet (by simp [htype]) (by simp [htype]) (by simp [htype])
  have hfresh : ∀ last, (tokenUsage pre).last = some last → start.turn ≠ last.turn := by
    intro last hlast hsame
    obtain ⟨k, hk, hle, hcurrent⟩ := hsampled.last last hlast
    obtain ⟨hnone, hnumber⟩ := hmove.turn_number htype
    have heq : before.nextTurn = k := by
      apply Json.nat_inj.mp
      rw [← hnumber, hsame, hk]
    simpa [hnone] using hcurrent heq.symm
  have hbegin : Within (tokenUsage pre).totals []
      { TurnScan.init with turn := some start.turn } (tokenUsage pre) begun.nextStep :=
    Within.begun begun.nextStep rfl rfl hfresh
  have hwithin := hbegin.run rfl hscan hrest
  have hfold : tokenUsage (pre ++ start :: rest) =
      rest.foldl TokenUsageState.apply (tokenUsage pre) := by
    unfold tokenUsage
    rw [List.foldl_append, List.foldl_cons]
    exact congrArg (rest.foldl TokenUsageState.apply) hquiet
  have hnone : usageOf start = none := usageOf_quiet (by simp [htype]) (by simp [htype])
  have hsamples : samplesOf (start :: rest) = samplesOf rest := by
    simp [samplesOf, hnone]
  refine ⟨_, ?_, ?_, rfl⟩
  · rw [hfold, hsamples]
    exact hwithin.totals
  · rw [hsamples, ← List.nil_append rest, ← hwithin.samples]
    exact accounts_of_aggregateAttempts hattempts

/-! ## A retried step -/

/-- An event of step 1 of turn 1. -/
def retriedAt (type : EventType) (seq : ℕ) (members : List (String × Json)) : SessionEvent where
  type := type
  seq := seq
  time := 0
  data := .obj ([("turn", .nat 1), ("step", .nat 1)] ++ members)
  surfaceOp := if type = .assistantMessage then some (.str "append") else none

def retriedUsage (output : ℕ) : Json :=
  .obj [("inputTokens", .nat 10), ("outputTokens", .nat output), ("totalTokens", .nat (10 + output)),
    ("cacheReadTokens", .nat 0)]

/-- The attempt that failed reported the usage that the message reports again. -/
def retriedTurn : List SessionEvent :=
  [retriedAt .turnStart 0 [], retriedAt .stepStart 1 [],
    retriedAt .assistantAttempt 2 [("stream", .arr [.obj [("type", .str "chunk"),
      ("chunk", .obj [("type", .str "usage"), ("usage", retriedUsage 5)])]])],
    retriedAt .llmRetry 3 [], retriedAt .llmRetryStarted 4 [],
    retriedAt .assistantMessage 5 [("usage", retriedUsage 5)],
    retriedAt .stepEnd 6 [], retriedAt .turnEnd 7 []]

/-- Both attempts count, also with equal samples. -/
theorem usage_totals_exact_retried :
    ∃ change, (tokenUsage ([] ++ retriedTurn)).totals = (tokenUsage []).totals + change ∧
      TurnTokenUsage.Accounts ⟨20, 10, 30, some 0, none, none, none⟩ change ∧
      change = TokenUsageProjection.total (samplesOf retriedTurn) := by
  have hlog : ∃ trace, runTrace ([] ++ retriedTurn ++ []) = .ok trace := ⟨_, rfl⟩
  obtain ⟨trace, htrace⟩ := hlog
  exact usage_totals_exact [] retriedTurn [] htrace (by decide +kernel)

end TianmaCoder
