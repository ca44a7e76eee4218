import TianmaCoder.Session.Invariant
import TianmaCoder.Tokens.Projections

/-!
# Provider usage of a turn

Two folds over the usage that assistant settlements report. The projection keeps running
totals and the sample of the last attempt, which a later sample of the same attempt replaces.
The turn disclosure follows every attempt of one completed turn through its lifecycle and is
unavailable when a boundary or a count is missing.

A declared usage is never `null`, so both folds read the usage of a settlement alike.

## Main definitions

* `TokenUsageState.apply` — the token-usage projection.
* `deriveTurnTokenUsage` — the exact accounting of a turn.
-/

namespace TianmaCoder

/-! ## The projection -/

/-- Token buckets of one sample, or their totals. -/
@[ext] structure TokenUsageProjection where
  uncachedInputTokens : ℤ
  outputTokens : ℤ
  cacheReadTokens : ℤ
  cacheWriteTokens : ℤ
  deriving DecidableEq

namespace TokenUsageProjection

instance : Zero TokenUsageProjection := ⟨0, 0, 0, 0⟩

instance : Add TokenUsageProjection :=
  ⟨fun a b => ⟨a.uncachedInputTokens + b.uncachedInputTokens, a.outputTokens + b.outputTokens,
    a.cacheReadTokens + b.cacheReadTokens, a.cacheWriteTokens + b.cacheWriteTokens⟩⟩

@[simp] theorem uncachedInputTokens_zero : (0 : TokenUsageProjection).uncachedInputTokens = 0 := rfl
@[simp] theorem outputTokens_zero : (0 : TokenUsageProjection).outputTokens = 0 := rfl
@[simp] theorem cacheReadTokens_zero : (0 : TokenUsageProjection).cacheReadTokens = 0 := rfl
@[simp] theorem cacheWriteTokens_zero : (0 : TokenUsageProjection).cacheWriteTokens = 0 := rfl

variable (a b c : TokenUsageProjection)

@[simp] theorem uncachedInputTokens_add :
    (a + b).uncachedInputTokens = a.uncachedInputTokens + b.uncachedInputTokens := rfl
@[simp] theorem outputTokens_add : (a + b).outputTokens = a.outputTokens + b.outputTokens := rfl
@[simp] theorem cacheReadTokens_add :
    (a + b).cacheReadTokens = a.cacheReadTokens + b.cacheReadTokens := rfl
@[simp] theorem cacheWriteTokens_add :
    (a + b).cacheWriteTokens = a.cacheWriteTokens + b.cacheWriteTokens := rfl

end TokenUsageProjection

/-- The buckets of a reported usage. -/
def bucketsFrom (usage : Json) : TokenUsageProjection where
  uncachedInputTokens := intMember (usage.get? "inputTokens")
  outputTokens := intMember (usage.get? "outputTokens")
  cacheReadTokens := intMember (usage.get? "cacheReadTokens")
  cacheWriteTokens := intMember (usage.get? "cacheWriteTokens")

/-- Add a sample in place of the one it replaces. -/
def addReplacing (totals : TokenUsageProjection) (previous : Option TokenUsageProjection)
    (next : TokenUsageProjection) : TokenUsageProjection :=
  let previous := previous.getD 0
  { uncachedInputTokens :=
      totals.uncachedInputTokens - previous.uncachedInputTokens + next.uncachedInputTokens
    outputTokens := totals.outputTokens - previous.outputTokens + next.outputTokens
    cacheReadTokens := totals.cacheReadTokens - previous.cacheReadTokens + next.cacheReadTokens
    cacheWriteTokens := totals.cacheWriteTokens - previous.cacheWriteTokens + next.cacheWriteTokens }

/-- The sample that a later one of its attempt replaces. -/
structure LastSample where
  turn : Json
  step : Json
  buckets : TokenUsageProjection
  deriving DecidableEq

/-- The state of the token-usage unit. -/
structure TokenUsageState where
  totals : TokenUsageProjection
  last : Option LastSample
  deriving DecidableEq

namespace TokenUsageState

def init : TokenUsageState := ⟨0, none⟩

/-- The last sample, when it is of the same turn and step. -/
def previous (state : TokenUsageState) (event : SessionEvent) : Option TokenUsageProjection :=
  match state.last with
  | none => none
  | some last => if last.turn = event.turn ∧ last.step = event.step then some last.buckets else none

/-- Fold one event into the unit. -/
def apply (state : TokenUsageState) (event : SessionEvent) : TokenUsageState :=
  match event.type with
  | .llmRetryStarted => if (state.previous event).isSome then { state with last := none } else state
  | .assistantMessage | .assistantAttempt =>
    match usageOf event with
    | none => state
    | some usage =>
      let buckets := bucketsFrom usage
      if state.previous event = some buckets then state
      else
        { totals := addReplacing state.totals (state.previous event) buckets
          last := some ⟨event.turn, event.step, buckets⟩ }
  | _ => state

end TokenUsageState

/-- The unit over a log. -/
def tokenUsage (log : List SessionEvent) : TokenUsageState := log.foldl TokenUsageState.apply .init

/-! ## The turn disclosure -/

/-- One provider and model that contributed a billed attempt. -/
structure TurnTokenUsageRoute where
  provider : String
  model : String
  deriving DecidableEq

/-- Exact accounting of every attempt in one completed turn. -/
structure TurnTokenUsage where
  uncachedInputTokens : ℕ
  outputTokens : ℕ
  totalTokens : ℕ
  cacheReadTokens : Option ℕ
  cacheWriteTokens : Option ℕ
  reasoningTokens : Option ℕ
  routes : Option (List TurnTokenUsageRoute)
  deriving DecidableEq

/-- One attempt with exact counts. -/
structure NormalizedAttempt where
  inputTokens : ℕ
  outputTokens : ℕ
  totalTokens : ℕ
  cacheReadTokens : Option ℕ
  cacheWriteTokens : Option ℕ
  reasoningTokens : Option ℕ
  route : Option TurnTokenUsageRoute
  deriving DecidableEq

/-- Add counts while the total stays a safe integer. -/
def safeSum (values : List ℕ) : Option ℕ :=
  values.foldlM (fun total value =>
    if total + value ≤ Json.maxSafeInteger then some (total + value) else none) 0

/-- A count that may be missing, but not malformed. -/
def optionalCount (value : Option Json) : Option (Option ℕ) :=
  match value with
  | none => some none
  | some value => (Json.count? (some value)).map some

/-- The provider and model of an assistant message, when both are named. -/
def messageRoute (event : SessionEvent) : Option TurnTokenUsageRoute :=
  let provider := (Json.str? (event.data.path ["message", "source", "provider"])).getD ""
  let model := (Json.str? (event.data.path ["message", "source", "model"])).getD ""
  if provider ≠ "" ∧ model ≠ "" then some ⟨provider, model⟩ else none

/-- The exact total of a usage: as reported, if it fits the known parts, or their sum. -/
def exactTotal (reported : Option Json) (knownPrompt outputTokens : ℕ)
    (cacheReadTokens cacheWriteTokens : Option ℕ) : Option ℕ :=
  match reported with
  | some reported => do
    let totalTokens ← Json.count? (some reported)
    if totalTokens < outputTokens ∨ totalTokens - outputTokens < knownPrompt then none
    else if cacheReadTokens.isSome ∧ cacheWriteTokens.isSome ∧
        totalTokens - outputTokens ≠ knownPrompt then none
    else some totalTokens
  | none =>
    if cacheReadTokens = none ∨ cacheWriteTokens = none then none
    else safeSum [knownPrompt, outputTokens]

/-- The exact counts of one attempt, or nothing when they contradict each other. -/
def normalizeUsage (usage : Json) (route : Option TurnTokenUsageRoute) :
    Option NormalizedAttempt := do
  let inputTokens ← Json.count? (usage.get? "inputTokens")
  let outputTokens ← Json.count? (usage.get? "outputTokens")
  let cacheReadTokens ← optionalCount (usage.get? "cacheReadTokens")
  let cacheWriteTokens ← optionalCount (usage.get? "cacheWriteTokens")
  let reasoningTokens ← optionalCount (usage.get? "reasoningTokens")
  if outputTokens < reasoningTokens.getD 0 then none
  else
    let knownPrompt ←
      safeSum (inputTokens :: (cacheReadTokens.toList ++ cacheWriteTokens.toList))
    let totalTokens ← exactTotal (usage.get? "totalTokens") knownPrompt outputTokens
      cacheReadTokens cacheWriteTokens
    some { inputTokens, outputTokens, totalTokens, cacheReadTokens, cacheWriteTokens,
           reasoningTokens, route }

/-- The sum of an optional bucket, when every attempt reported it. -/
def bucketSum (values : List (Option ℕ)) : Option ℕ :=
  if values.all Option.isSome then safeSum (values.filterMap id) else none

/-- The routes of the attempts, each once, when every attempt has one. -/
def uniqueRoutes (routes : List (Option TurnTokenUsageRoute)) :
    Option (List TurnTokenUsageRoute) :=
  if routes.all Option.isSome then
    some ((routes.filterMap id).foldl (fun unique route =>
      OrderedMap.set s!"{route.provider}\x00{route.model}" route unique) ([] : OrderedMap String _)
      |>.map Prod.snd)
  else none

def aggregateAttempts (attempts : List NormalizedAttempt) : Option TurnTokenUsage :=
  if attempts = [] then none
  else do
    let inputTokens ← safeSum (attempts.map (·.inputTokens))
    let outputTokens ← safeSum (attempts.map (·.outputTokens))
    let totalTokens ← safeSum (attempts.map (·.totalTokens))
    some
      { uncachedInputTokens := inputTokens
        outputTokens := outputTokens
        totalTokens := totalTokens
        cacheReadTokens := bucketSum (attempts.map (·.cacheReadTokens))
        cacheWriteTokens := bucketSum (attempts.map (·.cacheWriteTokens))
        reasoningTokens := bucketSum (attempts.map (·.reasoningTokens))
        routes := uniqueRoutes (attempts.map (·.route)) }

/-- What a settled attempt was settled by. -/
inductive SettledBy where
  | message
  | retry
  deriving DecidableEq

/-- Where the attempt of the open step is in its lifecycle. -/
inductive AttemptState where
  | idle
  | «open» (turn step : Json) (sample : Option Json)
  | finishClosed (turn step : Json)
  | settled (turn step : Json) (by_ : SettledBy)
  deriving DecidableEq

/-- The attempt is of this turn and step. -/
def AttemptState.sameAttempt (state : AttemptState) (event : SessionEvent) : Bool :=
  match state with
  | .idle => false
  | .open turn step _ | .finishClosed turn step | .settled turn step _ =>
    turn = event.turn && step = event.step

/-- The fold of the disclosure while the turn is valid. -/
structure TurnScan where
  state : AttemptState
  attempts : List NormalizedAttempt
  turn : Option Json
  sawEnd : Bool
  deriving DecidableEq

namespace TurnScan

def init : TurnScan := ⟨.idle, [], none, false⟩

/-- Close an open attempt that has a sample with exact counts. -/
def closeOpen (scan : TurnScan) (route : Option TurnTokenUsageRoute) :
    Option (List NormalizedAttempt) :=
  match scan.state with
  | .open _ _ (some sample) => (normalizeUsage sample route).map fun attempt =>
    scan.attempts ++ [attempt]
  | _ => none

/-- Settle the open attempt by a durable settlement of the turn. -/
def settle (scan : TurnScan) (turn : Json) (event : SessionEvent)
    (route : Option TurnTokenUsageRoute) (closed : AttemptState) : Option TurnScan :=
  match scan.state with
  | .open _ step sample =>
    if event.turn = turn ∧ scan.state.sameAttempt event then do
      let sampled := { scan with state := .open turn step ((usageOf event).or sample) }
      let attempts ← sampled.closeOpen route
      some { scan with state := closed, attempts := attempts }
    else none
  | _ => none

/-- One event of the turn; nothing once the turn is invalid. -/
def step (scan : TurnScan) (event : SessionEvent) : Option TurnScan :=
  match scan.turn with
  | none =>
    if event.type = .turnStart ∧ scan.state = .idle then some { scan with turn := some event.turn }
    else none
  | some turn =>
    match event.type with
    | .turnStart => none
    | .turnEnd =>
      if event.turn = turn ∧ scan.state = .idle ∧ scan.sawEnd = false then
        some { scan with sawEnd := true }
      else none
    | type =>
      if scan.sawEnd then none
      else
        match type with
        | .stepStart =>
          if event.turn = turn ∧ scan.state = .idle then
            some { scan with state := .open turn event.step none }
          else none
        | .llmRetryStarted =>
          match scan.state with
          | .settled _ _ .retry =>
            if event.turn = turn ∧ scan.state.sameAttempt event then
              some { scan with state := .open turn event.step none }
            else none
          | _ => none
        | .assistantAttempt => scan.settle turn event none (.finishClosed turn event.step)
        | .assistantMessage =>
          scan.settle turn event (messageRoute event) (.settled turn event.step .message)
        | .llmRetry =>
          if event.turn = turn ∧ scan.state.sameAttempt event then
            let retried : AttemptState := .settled turn event.step .retry
            match scan.state with
            | .open _ _ _ => (scan.closeOpen none).map fun attempts =>
              { scan with state := retried, attempts := attempts }
            | .finishClosed _ _ => some { scan with state := retried }
            | _ => none
          else none
        | .stepEnd =>
          if event.turn = turn ∧ scan.state.sameAttempt event then
            match scan.state with
            | .open _ _ _ => (scan.closeOpen none).map fun attempts =>
              { scan with state := .idle, attempts := attempts }
            | _ => some { scan with state := .idle }
          else none
        | _ => some scan

end TurnScan

/-- Fold one complete turn's attempts into exact accounting. -/
def deriveTurnTokenUsage (events : List SessionEvent) : Option TurnTokenUsage := do
  let scan ← events.foldlM TurnScan.step .init
  if scan.sawEnd = false ∨ scan.state ≠ .idle then none
  else aggregateAttempts scan.attempts

end TianmaCoder
