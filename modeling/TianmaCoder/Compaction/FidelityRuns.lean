import TianmaCoder.Compaction.FidelityEngine

/-!
# Runs of the fidelity summarizer

What the calls of one engine are to keep: a call whose last attempt was too long or cut at the
token cap still lands a summary, the fallback text keeps its bound, only failures that are not
retried count, and three of them in a row hand the calls to the upstream summarizer until one
succeeds. The engine misses the first for a summary cut at the token cap, whose error has no
code, and the second where the messages do not fit.

## Main definitions

* `CallKept`, `RunKept` — what a call and a run are to keep.
* `Fits` — what a call needs for it.

## Main results

* `run_kept_iff` — a run keeps it exactly when its calls fit.
-/

namespace TianmaCoder

namespace Fidelity

section Runs

variable [NumberText]

/-! ## What is to be kept -/

/-- The attempt ended in a prompt that is too long, or in a summary cut at the token cap. -/
def Squeezed (call : Call) (outcome : StreamOutcome) : Prop :=
  (∃ error, summarizeOnce call outcome = .error error ∧ isPromptTooLong error = true) ∨
    ∃ blocks usage, outcome = .finished .maxTokens blocks usage

/-- Where an answer comes from. -/
def ServedBy (call : Call) (settled : Settled) : Prop :=
  match settled.served with
  | .fidelity => ∃ outcome ∈ settled.last, settled.answer = summarizeOnce call outcome
  | .upstream => settled.answer = call.upstream
  | .fallback => ∃ target, settled.answer = .ok (fallbackResult call target)
  | .nobody => ∃ error, settled.answer = .error error

structure CallKept (call : Call) (settled : Settled) : Prop where
  /-- A squeezed call resolves, unless the upstream summarizer fails. -/
  resolves : ∀ outcome ∈ settled.last, Squeezed call outcome →
    (∃ result, settled.answer = .ok result) ∨
      settled.served = .upstream ∧ ∃ error, call.upstream = .error error
  served : ServedBy call settled
  bounded : settled.served = .fallback →
    (fallbackCheckpoint call.messages FALLBACK_MAX_CHARS).length ≤ FALLBACK_MAX_CHARS

/-- The fidelity prompt or the upstream summarizer made a summary. -/
def Settled.succeeded (settled : Settled) : Bool :=
  (settled.served = .fidelity || settled.served = .upstream) && settled.answer.isOk

/-- The failures counted after a further call: one for a call with attempts, however many. -/
def failuresAfter (failures : ℕ) (settled : Settled) : ℕ :=
  if settled.succeeded then 0
  else if settled.last.isSome then failures + 1
  else failures

/-- The failures counted since the last success. -/
def failuresSince (history : List Settled) : ℕ := history.foldl failuresAfter 0

def fresh : SummarizeBreaker := ⟨0⟩

structure RunKept (calls : List Call) : Prop where
  kept : ∀ before call after, calls = before ++ call :: after →
    CallKept call (summarize (engine.after fresh before) call).2
  /-- The breaker counts the failures that were not retried, since the last success. -/
  counted : ∀ before after, calls = before ++ after →
    (engine.after fresh before).consecutive = failuresSince (engine.outputs fresh before)
  /-- The third failure in a row hands its own call to the upstream summarizer. -/
  opens : ∀ before call after, calls = before ++ call :: after →
    failuresSince (engine.outputs fresh before) = 2 →
      (summarize (engine.after fresh before) call).2.served = .fidelity ∨
        (summarize (engine.after fresh before) call).2.served = .upstream
  /-- After it, every call is served upstream until one succeeds. -/
  stays : ∀ before call after, calls = before ++ call :: after →
    3 ≤ failuresSince (engine.outputs fresh before) →
      (summarize (engine.after fresh before) call).2.served = .upstream ∧
        (summarize (engine.after fresh before) call).2.last = none

/-! ## What it needs -/

/-- The error of an attempt that ends without a complete output. -/
def failureError : StreamOutcome → Option Thrown
  | .threw error => some error
  | .finished finish _ _ => finishError finish

/-- The last attempt is not cut at the token cap, and if it falls back, the messages in full
fit the fallback text. -/
structure Fits (call : Call) : Prop where
  uncapped : ∀ blocks usage, lastAttempt call ≠ .finished .maxTokens blocks usage
  short : ∀ error ∈ failureError (lastAttempt call),
    error.code = some "CONTEXT_WINDOW_EXCEEDED" ∨ error.code = some "MAX_TOKENS" →
      (fullCheckpoint call.messages).length ≤ FALLBACK_MAX_CHARS

/-! ## Attempts -/

variable {call : Call} {breaker : SummarizeBreaker}

omit [NumberText] in
theorem extractSummaryBlocks_code {blocks : List Json} {error : Thrown}
    (h : extractSummaryBlocks blocks = .error error) :
    error.code = none ∨ error.code = some "UNSUPPORTED_CONTENT" := by
  unfold extractSummaryBlocks at h
  split at h
  · cases h
    exact Or.inr rfl
  · left
    simp only at h
    split at h
    · split at h
      · split at h
        · cases h
          rfl
        · cases h
      · split at h
        · cases h
          rfl
        · cases h
    · split at h
      · cases h
        rfl
      · cases h

omit [NumberText] in
/-- An attempt without a complete output throws its error. -/
theorem summarizeOnce_of_failure {target : Target} (htarget : fidelityTarget call.routing = some target)
    {outcome : StreamOutcome} {error : Thrown} (h : failureError outcome = some error) :
    summarizeOnce call outcome = .error error := by
  cases outcome with
  | threw thrown =>
    cases h
    simp only [summarizeOnce, htarget]
    rfl
  | finished finish blocks usage =>
    have hfinish : finishError finish = some error := h
    simp only [summarizeOnce, htarget, hfinish]
    rfl

omit [NumberText] in
/-- A complete output fails without one of the codes that fall back. -/
theorem code_of_summarizeOnce {target : Target}
    (htarget : fidelityTarget call.routing = some target) {outcome : StreamOutcome} {error : Thrown}
    (hnone : failureError outcome = none) (h : summarizeOnce call outcome = .error error) :
    error.code = none ∨ error.code = some "UNSUPPORTED_CONTENT" := by
  cases outcome with
  | threw thrown => cases hnone
  | finished finish blocks usage =>
    have hfinish : finishError finish = none := hnone
    simp only [summarizeOnce, htarget, hfinish] at h
    cases hextract : extractSummaryBlocks blocks with
    | error thrown =>
      rw [hextract] at h
      cases h
      exact extractSummaryBlocks_code hextract
    | ok summary =>
      rw [hextract] at h
      simp only [bind, Except.bind] at h
      split at h
      · cases h
        exact Or.inl rfl
      · cases h

/-! ## Calls -/

omit [NumberText] in
theorem isOpen_iff : breaker.isOpen = true ↔ 3 ≤ breaker.consecutive := decide_eq_true_iff

omit [NumberText] in
theorem callKept_upstream (last : Option StreamOutcome) :
    CallKept call (upstreamSummarize call breaker last).2 := by
  unfold upstreamSummarize
  cases hupstream : call.upstream with
  | ok result =>
    refine ⟨fun _ _ _ => Or.inl ⟨result, rfl⟩, hupstream.symm, ?_⟩
    intro h
    cases h
  | error error =>
    refine ⟨fun _ _ _ => Or.inr ⟨rfl, error, hupstream⟩, hupstream.symm, ?_⟩
    intro h
    cases h

theorem callKept_settle_iff {target : Target} (htarget : fidelityTarget call.routing = some target)
    (hclosed : breaker.consecutive < 2) :
    CallKept call (settle call breaker (lastAttempt call)).2 ↔ Fits call := by
  have hstill : ¬breaker.recordFailure.isOpen = true := by
    rw [isOpen_iff]
    simp only [SummarizeBreaker.recordFailure]
    omega
  cases honce : summarizeOnce call (lastAttempt call) with
  | ok result =>
    have hfits : Fits call := by
      constructor
      · intro blocks usage hlast
        obtain ⟨error, hfailure⟩ : ∃ error, failureError (lastAttempt call) = some error :=
          ⟨_, by rw [hlast]; rfl⟩
        have herror := summarizeOnce_of_failure htarget hfailure
        rw [honce] at herror
        cases herror
      · intro error herror
        rw [summarizeOnce_of_failure htarget herror] at honce
        cases honce
    simp only [settle, honce, hfits, iff_true]
    refine ⟨fun _ _ _ => Or.inl ⟨result, rfl⟩, ⟨_, rfl, honce.symm⟩, ?_⟩
    intro h
    cases h
  | error error =>
    simp only [settle, honce, failed, if_neg hstill, htarget]
    by_cases hcode : error.code = some "MAX_TOKENS" ∨ isPromptTooLong error = true
    · rw [if_pos hcode]
      have hfailure : failureError (lastAttempt call) = some error := by
        cases hfailure : failureError (lastAttempt call) with
        | none =>
          simp only [isPromptTooLong, decide_eq_true_eq] at hcode
          rcases code_of_summarizeOnce htarget hfailure honce with hnone | hother
          · simp [hnone] at hcode
          · simp [hother] at hcode
        | some thrown =>
          rw [summarizeOnce_of_failure htarget hfailure] at honce
          cases honce
          rfl
      constructor
      · intro h
        constructor
        · intro blocks usage hlast
          rw [hlast] at hfailure
          cases hfailure
          simp [isPromptTooLong] at hcode
        · intro _ _ _
          exact (length_fallbackCheckpoint_le_iff _ _).mp (h.bounded rfl)
      · intro h
        refine ⟨fun _ _ _ => Or.inl ⟨_, rfl⟩, ⟨target, rfl⟩, fun _ => ?_⟩
        refine (length_fallbackCheckpoint_le_iff _ _).mpr (h.short error hfailure ?_)
        simp only [isPromptTooLong, decide_eq_true_eq] at hcode
        exact hcode.symm
    · rw [if_neg hcode]
      rw [not_or] at hcode
      constructor
      · intro h
        constructor
        · intro blocks usage hlast
          rcases h.resolves _ rfl (Or.inr ⟨blocks, usage, hlast⟩) with ⟨result, hok⟩ | ⟨hup, -⟩
          · cases hok
          · cases hup
        · intro thrown hthrown hcodes
          rw [summarizeOnce_of_failure htarget hthrown] at honce
          cases honce
          rcases hcodes with hlong | hmax
          · exact absurd (decide_eq_true hlong) hcode.2
          · exact absurd hmax hcode.1
      · intro h
        refine ⟨?_, ⟨error, rfl⟩, fun hserved => by cases hserved⟩
        rintro _ ⟨⟩ hsqueezed
        exfalso
        rcases hsqueezed with ⟨thrown, hthrown, hlong⟩ | ⟨blocks, usage, hlast⟩
        · rw [honce] at hthrown
          cases hthrown
          exact hcode.2 hlong
        · exact h.uncapped blocks usage hlast

theorem callKept_iff {target : Target} (htarget : fidelityTarget call.routing = some target) :
    CallKept call (summarize breaker call).2 ↔ (breaker.consecutive < 2 → Fits call) := by
  rw [summarize_eq]
  by_cases hopen : breaker.isOpen = true
  · rw [if_pos hopen]
    have hlimit := isOpen_iff.mp hopen
    exact ⟨fun _ h => by omega, fun _ => callKept_upstream none⟩
  · rw [if_neg hopen]
    rw [isOpen_iff] at hopen
    by_cases hclosed : breaker.consecutive < 2
    · rw [callKept_settle_iff htarget hclosed]
      exact ⟨fun h _ => h, fun h => h hclosed⟩
    · refine ⟨fun _ h => absurd h hclosed, fun _ => ?_⟩
      have hthird : breaker.recordFailure.isOpen = true := by
        rw [isOpen_iff]
        simp only [SummarizeBreaker.recordFailure]
        omega
      cases honce : summarizeOnce call (lastAttempt call) with
      | ok result =>
        simp only [settle, honce]
        refine ⟨fun _ _ _ => Or.inl ⟨result, rfl⟩, ⟨_, rfl, honce.symm⟩, ?_⟩
        intro h
        cases h
      | error error =>
        simp only [settle, honce, failed, if_pos hthird]
        exact callKept_upstream _

/-! ## Runs -/

theorem consecutive_summarize (breaker : SummarizeBreaker) (call : Call) :
    (summarize breaker call).1.consecutive
      = failuresAfter breaker.consecutive (summarize breaker call).2 := by
  rw [summarize_eq]
  by_cases hopen : breaker.isOpen = true
  · rw [if_pos hopen]
    cases hupstream : call.upstream with
    | ok result => simp only [upstreamSummarize, hupstream]; rfl
    | error error => simp only [upstreamSummarize, hupstream]; rfl
  · rw [if_neg hopen]
    cases honce : summarizeOnce call (lastAttempt call) with
    | ok result => simp only [settle, honce]; rfl
    | error error =>
      simp only [settle, honce, failed]
      by_cases hthird : breaker.recordFailure.isOpen = true
      · rw [if_pos hthird]
        cases hupstream : call.upstream with
        | ok result => simp only [upstreamSummarize, hupstream]; rfl
        | error error => simp only [upstreamSummarize, hupstream]; rfl
      · rw [if_neg hthird]
        split
        · split <;> rfl
        · rfl

theorem consecutive_after (breaker : SummarizeBreaker) (calls : List Call) :
    (engine.after breaker calls).consecutive
      = (engine.outputs breaker calls).foldl failuresAfter breaker.consecutive := by
  induction calls generalizing breaker with
  | nil => rfl
  | cons call calls ih =>
    rw [Machine.after_cons, Machine.outputs_cons, List.foldl_cons, ih]
    congr 1
    exact consecutive_summarize breaker call

theorem served_of_two (htwo : breaker.consecutive = 2) :
    (summarize breaker call).2.served = .fidelity ∨
      (summarize breaker call).2.served = .upstream := by
  have hclosed : ¬breaker.isOpen = true := by
    rw [isOpen_iff]
    omega
  have hthird : breaker.recordFailure.isOpen = true := by
    rw [isOpen_iff]
    simp only [SummarizeBreaker.recordFailure]
    omega
  rw [summarize_eq, if_neg hclosed]
  cases honce : summarizeOnce call (lastAttempt call) with
  | ok result =>
    left
    simp only [settle, honce]
  | error error =>
    right
    simp only [settle, honce, failed, if_pos hthird]
    cases hupstream : call.upstream with
    | ok result => simp only [upstreamSummarize, hupstream]
    | error error => simp only [upstreamSummarize, hupstream]

theorem served_of_open (hopen : 3 ≤ breaker.consecutive) :
    (summarize breaker call).2.served = .upstream ∧ (summarize breaker call).2.last = none := by
  rw [summarize_eq, if_pos (isOpen_iff.mpr hopen)]
  cases hupstream : call.upstream with
  | ok result => simp only [upstreamSummarize, hupstream, and_self]
  | error error => simp only [upstreamSummarize, hupstream, and_self]

/-- The calls of an engine keep what they are to keep exactly when each one that begins with
fewer than two counted failures fits. -/
theorem run_kept_iff (calls : List Call)
    (htargets : ∀ call ∈ calls, (fidelityTarget call.routing).isSome = true) :
    RunKept calls ↔ ∀ before call after, calls = before ++ call :: after →
      (engine.after fresh before).consecutive < 2 → Fits call := by
  have hcounted : ∀ before, (engine.after fresh before).consecutive
      = failuresSince (engine.outputs fresh before) := consecutive_after fresh
  constructor
  · intro h before call after hcalls
    obtain ⟨target, htarget⟩ := Option.isSome_iff_exists.mp
      (htargets call (by rw [hcalls]; exact List.mem_append_right _ List.mem_cons_self))
    exact (callKept_iff htarget).mp (h.kept before call after hcalls)
  · intro h
    constructor
    · intro before call after hcalls
      obtain ⟨target, htarget⟩ := Option.isSome_iff_exists.mp
        (htargets call (by rw [hcalls]; exact List.mem_append_right _ List.mem_cons_self))
      exact (callKept_iff htarget).mpr (h before call after hcalls)
    · exact fun before after _ => hcounted before
    · intro before call after _ htwo
      exact served_of_two ((hcounted before).trans htwo)
    · intro before call after _ hthree
      exact served_of_open (by rw [hcounted before]; exact hthree)

end Runs

/-! ## A summary cut at the token cap -/

section Capped

private instance fidelityText : NumberText := ⟨fun _ => 22, fun _ => 18⟩

/-- A call whose only attempt ends at the token cap. -/
def cappedCall : Call where
  messages := [userText "m1" "list the files", userText "m2" "and the sizes"]
  routing := ⟨"", "", none, some "deepseek", some "deepseek-chat"⟩
  maxTokens := 8192
  outcomes _ := .finished .maxTokens [] none
  markers _ := "marker"
  upstream := .error ⟨some "PROVIDER_DOWN", "route broken"⟩

theorem run_kept_iff_capped :
    RunKept [cappedCall] ↔ ∀ before call after, [cappedCall] = before ++ call :: after →
      (engine.after fresh before).consecutive < 2 → Fits call :=
  run_kept_iff [cappedCall] (by decide +kernel)

/-- The first call of an engine throws when its summary is cut at the token cap. -/
theorem capped_call_throws : ¬RunKept [cappedCall] := by
  intro h
  have htarget : fidelityTarget cappedCall.routing = some ⟨"deepseek", "deepseek-chat"⟩ := by
    decide +kernel
  have herror : summarizeOnce cappedCall (.finished .maxTokens [] none)
      = .error ⟨none, "summarization truncated at the token cap (incomplete checkpoint)"⟩ :=
    summarizeOnce_of_failure htarget rfl
  have hlast : lastAttempt cappedCall = .finished .maxTokens [] none := by
    have houtcome : ∀ attempt, cappedCall.outcomes attempt = .finished .maxTokens [] none :=
      fun _ => rfl
    rw [lastAttempt, FIDELITY_RETRY_LIMIT, lastFrom.eq_def]
    simp only [houtcome, herror, isPromptTooLong]
    rw [if_neg (by decide)]
  exact ((callKept_iff htarget).mp (h.kept [] cappedCall [] rfl) (by decide)).uncapped [] none hlast

end Capped

end Fidelity

end TianmaCoder
