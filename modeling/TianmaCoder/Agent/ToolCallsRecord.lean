import Mathlib.Data.List.Infix
import TianmaCoder.Agent.ToolCalls

/-!
# What the log says of a step's tool calls

`Recorded` is what holds of the log and of the bookkeeping wherever `executeToolCalls` stands:
calls and results are in model order, each result cites the call it answers, contexts come from
committed results, and the pool keeps to its bound.

## Main definitions

* `Recorded` — the record at any await.

## Main results

* `Recorded.startCall`, `Recorded.answer`, `Recorded.skip` — the events that extend it.
-/

namespace TianmaCoder

namespace ToolCalls

variable {ε κ : Type}

/-! ## Extending the log -/

section Log

variable (log : List Event) (seq : ℕ) (call : ToolCallData) (result : ToolResultData)
  (sources : List (Option ℕ)) (event : Json)

@[simp] theorem callSeqs_toolCall :
    callSeqs (log ++ [.toolCall seq call]) = callSeqs log ++ [seq] := by
  simp [callSeqs]
@[simp] theorem callSeqs_toolResult :
    callSeqs (log ++ [.toolResult result sources]) = callSeqs log := by
  simp [callSeqs]
@[simp] theorem callSeqs_other : callSeqs (log ++ [.other event]) = callSeqs log := by
  simp [callSeqs]
@[simp] theorem callData_toolCall :
    callData (log ++ [.toolCall seq call]) = callData log ++ [call] := by
  simp [callData]
@[simp] theorem callData_toolResult :
    callData (log ++ [.toolResult result sources]) = callData log := by
  simp [callData]
@[simp] theorem callData_other : callData (log ++ [.other event]) = callData log := by
  simp [callData]
@[simp] theorem results_toolCall : results (log ++ [.toolCall seq call]) = results log := by
  simp [results]
@[simp] theorem results_toolResult :
    results (log ++ [.toolResult result sources]) = results log ++ [(result, sources)] := by
  simp [results]
@[simp] theorem results_other : results (log ++ [.other event]) = results log := by
  simp [results]

end Log

/-! ## Answers -/

namespace State

/-- The results of the calls answered so far, the synthetic ones last. -/
def answers (s : State ε κ) : List (ToolExecutionResult κ) :=
  s.outcomes ++ List.replicate s.skipped abortedBeforeDispatch

/-- A call that has started and has no result. -/
def Open (s : State ε κ) (i : ℕ) : Prop :=
  s.answers.length ≤ i ∧ i < (callSeqs s.log).length

/-- How many dispatches run. -/
def running (s : State ε κ) : ℕ :=
  s.group.inFlight.countP fun p => !p.2

end State

/-- The results that answer the calls at the given numbers, each citing its own. -/
def answered (settings : Settings ε κ) (planned : List ToolCallBlock) (seqs : List ℕ)
    (answers : List (ToolExecutionResult κ)) : List (ToolResultData × List (Option ℕ)) :=
  List.zipWith (fun call answer => (toolResultData settings call.1 answer, [some call.2]))
    (planned.zip seqs) answers

variable {settings : Settings ε κ} {planned : List ToolCallBlock}

/-- A longer list of numbers answers nothing more. -/
theorem answered_call (seqs : List ℕ) (seq : ℕ) {answers : List (ToolExecutionResult κ)}
    (hlen : answers.length ≤ seqs.length) :
    answered settings planned (seqs ++ [seq]) answers = answered settings planned seqs answers := by
  unfold answered
  refine List.ext_getElem? fun i => ?_
  rw [List.getElem?_zipWith, List.getElem?_zipWith]
  by_cases hi : i < answers.length
  · have hseqs : (seqs ++ [seq])[i]? = seqs[i]? := List.getElem?_append_left (by omega)
    simp only [List.zip, List.getElem?_zipWith, hseqs]
  · have hnone : answers[i]? = none := List.getElem?_eq_none (by omega)
    rw [hnone]
    cases (planned.zip (seqs ++ [seq]))[i]? <;> cases (planned.zip seqs)[i]? <;> rfl

theorem answered_answer {seqs : List ℕ} {answers : List (ToolExecutionResult κ)}
    (answer : ToolExecutionResult κ) {block : ToolCallBlock} {seq : ℕ}
    (hblock : planned[answers.length]? = some block) (hseq : seqs[answers.length]? = some seq) :
    answered settings planned seqs (answers ++ [answer])
      = answered settings planned seqs answers
        ++ [(toolResultData settings block answer, [some seq])] := by
  have hplanned := (List.getElem?_eq_some_iff.mp hblock).1
  have hseqs := (List.getElem?_eq_some_iff.mp hseq).1
  have hlen : (answered settings planned seqs answers).length = answers.length := by
    simp only [answered, List.length_zipWith, List.length_zip]
    omega
  refine List.ext_getElem? fun i => ?_
  rcases Nat.lt_trichotomy i answers.length with hi | rfl | hi
  · rw [List.getElem?_append_left (by omega)]
    simp only [answered, List.getElem?_zipWith, List.getElem?_append_left hi]
  · rw [List.getElem?_append_right (by omega), hlen, Nat.sub_self]
    simp [answered, List.getElem?_zipWith, List.zip, hblock, hseq]
  · rw [List.getElem?_eq_none, List.getElem?_eq_none]
    · rw [List.length_append, hlen, List.length_singleton]
      omega
    · simp only [answered, List.length_zipWith, List.length_append, List.length_singleton]
      omega

/-! ## The record -/

/-- What holds of the record wherever the function stands. -/
structure Recorded (settings : Settings ε κ) (planned : List ToolCallBlock) (s : State ε κ) :
    Prop where
  calls : callData s.log
    = (planned.take (callSeqs s.log).length).map (toolCallData settings)
  fits : (callSeqs s.log).length ≤ planned.length
  below : ∀ seq ∈ callSeqs s.log, seq < settings.firstSeq + s.log.length
  increasing : (callSeqs s.log).Pairwise (· < ·)
  results : results s.log = answered settings planned (callSeqs s.log) s.answers
  answered : s.answers.length ≤ (callSeqs s.log).length
  started : s.startModes.length ≤ (callSeqs s.log).length
  committed : s.outcomes.length ≤ s.startModes.length
  contexts : s.contexts <+: s.outcomes.flatMap ToolExecutionResult.additionalContexts
  pool : s.group.inFlight.length ≤ settings.maxParallelToolCalls
  skipped : 0 < s.skipped → s.signalAborted = true ∧ s.outcomes.length = s.startModes.length
  exclusive : ∀ i j, s.Open i → s.Open j → s.startModes[i]? = some (.ok .exclusive) → j = i

/-- A step that changes no more than the signal, the classification and the events of other
writers. -/
structure Quiet (s t : State ε κ) : Prop where
  callSeqs_eq : callSeqs t.log = callSeqs s.log
  callData_eq : callData t.log = callData s.log
  results_eq : results t.log = results s.log
  length_le : s.log.length ≤ t.log.length
  signal : s.signalAborted = true → t.signalAborted = true
  contexts_eq : t.contexts = s.contexts
  next_eq : t.next = s.next
  group_eq : t.group = s.group
  startModes_eq : t.startModes = s.startModes
  outcomes_eq : t.outcomes = s.outcomes
  skipped_eq : t.skipped = s.skipped

theorem Quiet.answers_eq {s t : State ε κ} (q : Quiet s t) : t.answers = s.answers := by
  rw [State.answers, q.outcomes_eq, q.skipped_eq, State.answers]

namespace Recorded

variable {s : State ε κ}

section

variable (h : Recorded settings planned s)
include h

/-- Every call with a result has a number and a block. -/
theorem block_at {i : ℕ} (hi : i < (callSeqs s.log).length) :
    ∃ block seq, planned[i]? = some block ∧ (callSeqs s.log)[i]? = some seq := by
  have hplanned : i < planned.length := Nat.lt_of_lt_of_le hi h.fits
  exact ⟨planned[i], (callSeqs s.log)[i], List.getElem?_eq_getElem hplanned,
    List.getElem?_eq_getElem hi⟩

/-- Nothing of what the record speaks of has changed. -/
theorem quiet {t : State ε κ} (q : Quiet s t) :
    Recorded settings planned t where
  calls := by
    rw [q.callData_eq, q.callSeqs_eq]
    exact h.calls
  fits := by
    rw [q.callSeqs_eq]
    exact h.fits
  below seq hseq := by
    rw [q.callSeqs_eq] at hseq
    exact Nat.lt_of_lt_of_le (h.below seq hseq) (Nat.add_le_add_left q.length_le _)
  increasing := by
    rw [q.callSeqs_eq]
    exact h.increasing
  results := by
    rw [q.results_eq, q.callSeqs_eq, q.answers_eq]
    exact h.results
  answered := by
    rw [q.callSeqs_eq, q.answers_eq]
    exact h.answered
  started := by
    rw [q.callSeqs_eq, q.startModes_eq]
    exact h.started
  committed := by
    rw [q.startModes_eq, q.outcomes_eq]
    exact h.committed
  contexts := by
    rw [q.contexts_eq, q.outcomes_eq]
    exact h.contexts
  pool := by
    rw [q.group_eq]
    exact h.pool
  skipped hpos := by
    rw [q.skipped_eq] at hpos
    rw [q.startModes_eq, q.outcomes_eq]
    exact ⟨q.signal (h.skipped hpos).1, (h.skipped hpos).2⟩
  exclusive i j hi hj hmode := by
    rw [State.Open, q.answers_eq, q.callSeqs_eq] at hi hj
    rw [q.startModes_eq] at hmode
    exact h.exclusive i j hi hj hmode

/-- The next call of the plan is appended. -/
theorem call {block : ToolCallBlock}
    (hblock : planned[(callSeqs s.log).length]? = some block) {t : State ε κ} (hlog : t.log = s.log
      ++ [.toolCall (settings.firstSeq + s.log.length) (toolCallData settings block)])
    (houtcomes : t.outcomes = s.outcomes) (hskip : t.skipped = s.skipped)
    (hmodes : s.startModes.length ≤ t.startModes.length)
    (hstarted : t.startModes.length ≤ (callSeqs s.log).length + 1)
    (hcontexts : t.contexts = s.contexts) (hpool : t.group.inFlight = s.group.inFlight)
    (hsignal : t.signalAborted = s.signalAborted)
    (hskipped : 0 < s.skipped → t.startModes = s.startModes)
    (hexclusive : ∀ i j, t.Open i → t.Open j → t.startModes[i]? = some (.ok .exclusive) → j = i) :
    Recorded settings planned t where
  calls := by
    rw [hlog, callData_toolCall, callSeqs_toolCall, h.calls, List.length_append,
      List.length_singleton, List.take_add_one, hblock]
    simp
  fits := by
    have hlt := (List.getElem?_eq_some_iff.mp hblock).1
    rw [hlog, callSeqs_toolCall, List.length_append, List.length_singleton]
    omega
  below seq hseq := by
    rw [hlog, callSeqs_toolCall, List.mem_append, List.mem_singleton] at hseq
    rw [hlog, List.length_append, List.length_singleton]
    rcases hseq with hseq | rfl
    · have hlt := h.below seq hseq
      omega
    · omega
  increasing := by
    rw [hlog, callSeqs_toolCall, List.pairwise_append]
    refine ⟨h.increasing, List.pairwise_singleton _ _, fun a ha b hb => ?_⟩
    rw [List.mem_singleton.mp hb]
    exact h.below a ha
  results := by
    have hanswers : t.answers = s.answers := by rw [State.answers, houtcomes, hskip, State.answers]
    rw [hlog, results_toolCall, callSeqs_toolCall, hanswers, answered_call _ _ h.answered,
      h.results]
  answered := by
    have hanswers : t.answers = s.answers := by rw [State.answers, houtcomes, hskip, State.answers]
    have hle := h.answered
    rw [hlog, callSeqs_toolCall, hanswers, List.length_append]
    omega
  started := by
    rw [hlog, callSeqs_toolCall, List.length_append, List.length_singleton]
    exact hstarted
  committed := by
    rw [houtcomes]
    exact Nat.le_trans h.committed hmodes
  contexts := by
    rw [hcontexts, houtcomes]
    exact h.contexts
  pool := by
    rw [hpool]
    exact h.pool
  skipped hpos := by
    rw [hskip] at hpos
    rw [hsignal, houtcomes, hskipped hpos]
    exact h.skipped hpos
  exclusive := hexclusive

/-- The first call without a result gets one. -/
theorem answer {block : ToolCallBlock} {seq : ℕ}
    {result : ToolExecutionResult κ} (hblock : planned[s.answers.length]? = some block)
    (hseq : (callSeqs s.log)[s.answers.length]? = some seq) {t : State ε κ}
    (hlog : t.log = s.log ++ [.toolResult (toolResultData settings block result) [some seq]])
    (hanswers : t.answers = s.answers ++ [result]) (hmodes : t.startModes = s.startModes)
    (hcommitted : t.outcomes.length ≤ t.startModes.length)
    (hcontexts : t.contexts <+: t.outcomes.flatMap ToolExecutionResult.additionalContexts)
    (hpool : t.group.inFlight = s.group.inFlight)
    (hskipped : 0 < t.skipped → t.signalAborted = true ∧ t.outcomes.length = t.startModes.length) :
    Recorded settings planned t where
  calls := by simpa [hlog] using h.calls
  fits := by simpa [hlog] using h.fits
  below seq hseq := by
    rw [hlog, callSeqs_toolResult] at hseq
    have hlt := h.below seq hseq
    rw [hlog, List.length_append]
    omega
  increasing := by simpa [hlog] using h.increasing
  results := by
    rw [hlog, results_toolResult, callSeqs_toolResult, hanswers, answered_answer _ hblock hseq,
      h.results]
  answered := by
    have hlt := (List.getElem?_eq_some_iff.mp hseq).1
    rw [hlog, callSeqs_toolResult, hanswers, List.length_append, List.length_singleton]
    exact hlt
  started := by
    rw [hlog, callSeqs_toolResult, hmodes]
    exact h.started
  committed := hcommitted
  contexts := hcontexts
  pool := by
    rw [hpool]
    exact h.pool
  skipped := hskipped
  exclusive i j hi hj hmode := by
    have hwiden : ∀ k, t.Open k → s.Open k := by
      intro k hk
      have hlow := hk.1
      have hhigh := hk.2
      rw [hanswers, List.length_append] at hlow
      rw [hlog, callSeqs_toolResult] at hhigh
      exact ⟨by omega, hhigh⟩
    rw [hmodes] at hmode
    exact h.exclusive i j (hwiden i hi) (hwiden j hj) hmode

end

end Recorded

end ToolCalls

end TianmaCoder
