import TianmaCoder.Compaction.FallbackCheckpoint
import TianmaCoder.Lib.Machine

/-!
# The fidelity summarizer and its breaker

A call of the engine tries the fidelity prompt, retries a prompt that is too long with a
truncated prefix, and counts at most one failure. Three of them in a row open the breaker, and
the upstream summarizer serves the calls until one succeeds. What the provider and the upstream
summarizer answer is part of a call.

## Main definitions

* `summarizeOnce`, `summarize`, `engine` — one attempt, one call and the calls of an engine.
* `lastAttempt`, `settle` — the attempt that decides a call, and what is made of it.

## Main results

* `attemptFrom_eq` — a call is settled by its last attempt.
-/

namespace TianmaCoder

namespace Fidelity

variable [NumberText]

/-- Truncation retries before the deterministic fallback checkpoint. -/
def FIDELITY_RETRY_LIMIT : ℕ := 3

/-- Consecutive failures before the breaker falls back to upstream behavior. -/
def FIDELITY_BREAKER_LIMIT : ℕ := 3

/-! ## Errors and outcomes -/

structure LlmFailure where
  message : String
  code : String
  deriving DecidableEq

/-- A thrown error: its `code`, if it has one, and its message. -/
structure Thrown where
  code : Option String
  message : String
  deriving DecidableEq

inductive FinishReason where
  | stop
  | toolCalls
  | maxTokens
  | aborted (failure : LlmFailure)
  | error (failure : LlmFailure)
  deriving DecidableEq

/-- What one stream of the provider comes to. -/
inductive StreamOutcome where
  | threw (error : Thrown)
  | finished (finish : FinishReason) (blocks : List Json) (usage : Option Json)

/-- `new LlmError(message, code)` -/
def llmError (failure : LlmFailure) : Thrown :=
  if failure.message = "" then ⟨none, "LlmError message must be a non-empty string"⟩
  else if failure.code = "" then ⟨none, "LlmError code must be a non-empty string"⟩
  else ⟨some failure.code, failure.message⟩

/-- Map a terminal summarization finish to its fail-closed error. -/
def finishError : FinishReason → Option Thrown
  | .error failure | .aborted failure => some (llmError failure)
  | .maxTokens =>
    some ⟨none, "summarization truncated at the token cap (incomplete checkpoint)"⟩
  | .stop | .toolCalls => none

def isPromptTooLong (error : Thrown) : Bool := error.code = some "CONTEXT_WINDOW_EXCEEDED"

/-! ## One attempt -/

/-- Position of the last occurrence. -/
def lastIndexOf (needle : List Char) : List Char → Option ℕ
  | [] => if needle = [] then some 0 else none
  | c :: cs =>
    match lastIndexOf needle cs with
    | some i => some (i + 1)
    | none => if needle.isPrefixOf (c :: cs) then some 0 else none

def SUMMARY_OPEN : List Char := "<summary>".toList
def SUMMARY_CLOSE : List Char := "</summary>".toList

/-- Pull the `<summary>` span out of the text output, or pass untagged text through. -/
def extractSummaryBlocks (blocks : List Json) : Except Thrown (List String) :=
  if blocks.any fun block => block.get? "type" = some (.str "image") then
    throw ⟨some "UNSUPPORTED_CONTENT", "compaction summary cannot contain image output"⟩
  else
    let texts := (blocks.filter fun block => block.get? "type" = some (.str "text")).map blockText
    let joined := (String.intercalate "\n" texts).toList
    let untagged : Except Thrown (List String) :=
      match texts.filter fun text => Text.trim text ≠ "" with
      | [] => throw ⟨none, "summarization produced no text summary content"⟩
      | fallback => pure fallback
    match lastIndexOf SUMMARY_OPEN joined, lastIndexOf SUMMARY_CLOSE joined with
    | some start, some close =>
      if start < close then
        let extracted := Text.trim (String.ofList
          ((joined.take close).drop (start + SUMMARY_OPEN.length)))
        if extracted = "" then throw ⟨none, "summarization produced an empty <summary> block"⟩
        else pure [extracted]
      else untagged
    | _, _ => untagged

structure Target where
  provider : String
  model : String
  deriving DecidableEq

/-- Where the target of a summarization comes from. -/
structure Routing where
  summarizationProvider : String
  summarizationModel : String
  /-- Provider and model of the latest request header. -/
  latest : Option Target
  agentProvider : Option String
  agentModel : Option String

/-- Resolve the summarization target: configured, else routed, else agent options. -/
def fidelityTarget (routing : Routing) : Option Target :=
  if routing.summarizationProvider.length > 0 then
    some ⟨routing.summarizationProvider, routing.summarizationModel⟩
  else
    match routing.latest.filter fun latest =>
        latest.provider.length > 0 && latest.model.length > 0 with
    | some latest => some latest
    | none =>
      match routing.agentProvider, routing.agentModel with
      | some provider, some model =>
        if provider.length > 0 ∧ model.length > 0 then some ⟨provider, model⟩ else none
      | _, _ => none

/-- A summary and the call that made it. -/
structure SummaryResult where
  /-- The texts of the summary blocks, in code units. -/
  summary : List (List ℕ)
  /-- The complete output; absent where it is the summary itself. -/
  rawOutput : Option (List Json)
  llmStreamCall : Bool
  provider : String
  model : String
  maxTokens : ℕ
  usage : Option Json

/-- One call of the engine, with the answers of its surroundings. -/
structure Call where
  messages : List Json
  routing : Routing
  maxTokens : ℕ
  /-- What the stream of each fidelity attempt comes to. -/
  outcomes : ℕ → StreamOutcome
  /-- The ids of the markers. -/
  markers : ℕ → String
  /-- The upstream one-shot summarizer on this input. -/
  upstream : Except Thrown SummaryResult

def noTarget : Thrown where
  code := none
  message := "no provider/model available for summarization: set both BasicCompactionConfig "
    ++ "summarization fields, route one request, or set both AgentOptions fields"

/-- One fidelity summarization attempt without resilience wrapping. -/
def summarizeOnce (call : Call) (outcome : StreamOutcome) : Except Thrown SummaryResult :=
  match fidelityTarget call.routing with
  | none => throw noTarget
  | some target =>
    match outcome with
    | .threw error => throw error
    | .finished finish blocks usage =>
      match finishError finish with
      | some error => throw error
      | none => do
        let summary ← extractSummaryBlocks blocks
        if ¬summary.any fun text => Text.trim text ≠ "" then
          throw ⟨none, "summarization produced no text summary content"⟩
        else
          pure ⟨summary.map codeUnits, some blocks, true, target.provider, target.model,
            call.maxTokens, usage⟩

/-- Estimated token size of a replayed prefix. -/
def estimatePrefixTokens (messages : List Json) : ℕ :=
  let chars := (messages.map fun message => ((contentOf message).map fun block =>
    if block.get? "type" = some (.str "text") then utf16Length (blockText block)
    else block.textLength).sum).sum
  textTokens chars

/-! ## The breaker -/

/-- Consecutive-failure circuit breaker state. -/
structure SummarizeBreaker where
  consecutive : ℕ
  deriving DecidableEq

namespace SummarizeBreaker

def recordFailure (breaker : SummarizeBreaker) : SummarizeBreaker := ⟨breaker.consecutive + 1⟩

def recordSuccess (_ : SummarizeBreaker) : SummarizeBreaker := ⟨0⟩

/-- Whether the breaker is open (fall back to upstream behavior). -/
def isOpen (breaker : SummarizeBreaker) : Bool := FIDELITY_BREAKER_LIMIT ≤ breaker.consecutive

end SummarizeBreaker

/-! ## Calls -/

/-- Who served a call. -/
inductive Served where
  | fidelity
  | upstream
  | fallback
  | nobody
  deriving DecidableEq

/-- How a call ended. -/
structure Settled where
  answer : Except Thrown SummaryResult
  served : Served
  /-- The last fidelity attempt, if one was made. -/
  last : Option StreamOutcome

/-- The upstream one-shot summarizer, used as the breaker fallback. -/
def upstreamSummarize (call : Call) (breaker : SummarizeBreaker) (last : Option StreamOutcome) :
    SummarizeBreaker × Settled :=
  match call.upstream with
  | .ok result => (breaker.recordSuccess, ⟨.ok result, .upstream, last⟩)
  | .error error => (breaker, ⟨.error error, .upstream, last⟩)

/-- The bound on the fallback text. -/
def FALLBACK_MAX_CHARS : ℕ := 12000

/-- The result that carries the fallback checkpoint. -/
def fallbackResult (call : Call) (target : Target) : SummaryResult where
  summary := [fallbackCheckpoint call.messages FALLBACK_MAX_CHARS]
  rawOutput := none
  llmStreamCall := false
  provider := target.provider
  model := target.model
  maxTokens := call.maxTokens
  usage := none

/-- A failure that is not retried. -/
def failed (call : Call) (breaker : SummarizeBreaker) (outcome : StreamOutcome) (error : Thrown) :
    SummarizeBreaker × Settled :=
  let breaker := breaker.recordFailure
  if breaker.isOpen then upstreamSummarize call breaker (some outcome)
  else if error.code = some "MAX_TOKENS" ∨ isPromptTooLong error then
    match fidelityTarget call.routing with
    | some target => (breaker, ⟨.ok (fallbackResult call target), .fallback, some outcome⟩)
    | none => (breaker, ⟨.error error, .nobody, some outcome⟩)
  else (breaker, ⟨.error error, .nobody, some outcome⟩)

/-- The loop over the attempts, with the retries that are left and the prefix of the next
attempt. -/
def attemptFrom (call : Call) (breaker : SummarizeBreaker) (retries : ℕ) (messages : List Json) :
    SummarizeBreaker × Settled :=
  let attempt := FIDELITY_RETRY_LIMIT - retries
  let outcome := call.outcomes attempt
  match summarizeOnce call outcome with
  | .ok result => (breaker.recordSuccess, ⟨.ok result, .fidelity, some outcome⟩)
  | .error error =>
    match retries with
    | 0 => failed call breaker outcome error
    | retries + 1 =>
      if isPromptTooLong error ∧ 0 < estimatePrefixTokens messages then
        attemptFrom call breaker retries (truncatePrefix (call.markers attempt) messages)
      else failed call breaker outcome error

/-- `summarize` -/
def summarize (breaker : SummarizeBreaker) (call : Call) : SummarizeBreaker × Settled :=
  if breaker.isOpen then upstreamSummarize call breaker none
  else attemptFrom call breaker FIDELITY_RETRY_LIMIT call.messages

/-- The calls of one engine. -/
def engine : Machine SummarizeBreaker Call Settled where
  step := summarize

/-! ## The last attempt -/

/-- The attempt after which none is retried: attempts go on while the prompt is too long, retries
are left and the prefix has characters. -/
def lastFrom (call : Call) (retries : ℕ) (messages : List Json) : StreamOutcome :=
  let attempt := FIDELITY_RETRY_LIMIT - retries
  let outcome := call.outcomes attempt
  match summarizeOnce call outcome with
  | .ok _ => outcome
  | .error error =>
    match retries with
    | 0 => outcome
    | retries + 1 =>
      if isPromptTooLong error ∧ 0 < estimatePrefixTokens messages then
        lastFrom call retries (truncatePrefix (call.markers attempt) messages)
      else outcome

def lastAttempt (call : Call) : StreamOutcome := lastFrom call FIDELITY_RETRY_LIMIT call.messages

/-- What is made of the last attempt. -/
def settle (call : Call) (breaker : SummarizeBreaker) (outcome : StreamOutcome) :
    SummarizeBreaker × Settled :=
  match summarizeOnce call outcome with
  | .ok result => (breaker.recordSuccess, ⟨.ok result, .fidelity, some outcome⟩)
  | .error error => failed call breaker outcome error

/-- A call is settled by its last attempt; the retried ones leave no trace. -/
theorem attemptFrom_eq (call : Call) (breaker : SummarizeBreaker) (retries : ℕ)
    (messages : List Json) :
    attemptFrom call breaker retries messages
      = settle call breaker (lastFrom call retries messages) := by
  induction retries generalizing messages with
  | zero =>
    rw [attemptFrom.eq_def, lastFrom.eq_def]
    cases honce : summarizeOnce call (call.outcomes (FIDELITY_RETRY_LIMIT - 0)) with
    | ok result => simp only [settle, honce]
    | error error => simp only [settle, honce]
  | succ retries ih =>
    rw [attemptFrom.eq_def, lastFrom.eq_def]
    cases honce : summarizeOnce call (call.outcomes (FIDELITY_RETRY_LIMIT - (retries + 1))) with
    | ok result => simp only [settle, honce]
    | error error =>
      by_cases hretry : isPromptTooLong error = true ∧ 0 < estimatePrefixTokens messages
      · simp only [honce, if_pos hretry]
        exact ih _
      · simp only [settle, honce, if_neg hretry]

theorem summarize_eq (breaker : SummarizeBreaker) (call : Call) :
    summarize breaker call
      = if breaker.isOpen then upstreamSummarize call breaker none
        else settle call breaker (lastAttempt call) := by
  rw [summarize, attemptFrom_eq]
  rfl

end Fidelity

end TianmaCoder
