import TianmaCoder.Session.Surface

/-!
# The seed boundary

A session constructed from an existing log checks every event of it before replay. These
checks look at the envelope, at the request header and at the identified message of each
message event; an append to a live session makes none of them beyond
`validateSessionEventData`, so a live log may hold events its own replay refuses.

## Main definitions

* `assertSessionEventEnvelope` — the whole check of one seed event.
-/

namespace TianmaCoder

/-- Whether a value carries a nonempty provider and model. -/
def hasProviderModel (value : Json) : Bool :=
  (Json.nonEmptyStr? (value.get? "provider")).isSome
    && (Json.nonEmptyStr? (value.get? "model")).isSome

/-- Validate the adapter-default markers of an imported request header. -/
def assertAdapterDefaults (value : Option Json) (config : Json) (index : ℕ) :
    Except String Unit :=
  match value with
  | none => pure ()
  | some (.obj defaults) =>
    if defaults.any (fun m => m.1 ∉ ["reasoningEffort", "maxTokens"] || m.2 != .bool true)
        || (["reasoningEffort", "maxTokens"].any fun key =>
          (Json.obj defaults).get? key == some (.bool true) && !config.has key) then
      throw s!"seed request/header at index {index} has invalid adapterDefaults"
    else pure ()
  | some _ => throw s!"seed request/header at index {index} has invalid adapterDefaults"

/-- Reject obsolete request headers. -/
def assertRequestHeaderShape (data : Json) (index : ℕ) : Except String Unit := do
  let header := (data.get? "header").getD .null
  let config := (header.get? "config").getD .null
  if !hasProviderModel config then
    throw s!"seed request/header at index {index} lacks provider/model"
  if config.has "reasoningEffort" && (Json.nonEmptyStr? (config.get? "reasoningEffort")).isNone then
    throw s!"seed request/header at index {index} has an invalid reasoningEffort"
  assertAdapterDefaults (header.get? "adapterDefaults") config index
  if (data.get? "reason") ∉ ["initial", "resume", "change", "series"].map (some ∘ Json.str) then
    throw s!"seed request/header at index {index} has an invalid reason"
  if data.has "startsSeries" && data.get? "startsSeries" != some (.bool true) then
    throw s!"seed request/header at index {index} has an invalid startsSeries marker"

/-- Validate the settlement fields that restored lifecycle logic reads. -/
def assertAssistantSettlementShape (event : SessionEvent) (index : ℕ) : Except String Unit :=
  if (Json.count? (event.field "turn")).isNone || (Json.count? (event.field "step")).isNone
      || (Json.arr? (event.field "stream")).isNone then
    throw s!"seed {event.type.name} at index {index} has invalid settlement fields"
  else pure ()

/-- `MESSAGE_ROLE_BY_TYPE`, on the types whose payload carries an identified message. -/
def messageRole? : EventType → Option String
  | .systemMessage => some "system"
  | .developerMessage => some "developer"
  | .userMessage => some "user"
  | .assistantMessage => some "assistant"
  | .toolResult => some "tool"
  | _ => none

/-- Validate the invariants needed to replay the message of one event. -/
def assertMessageEventShape (event : SessionEvent) (subject : String) : Except String Unit := do
  match messageRole? event.type with
  | none => pure ()
  | some role =>
    let message :=
      if event.type == .userMessage then event.data else (event.field "message").getD .null
    let source := (message.get? "source").getD .null
    if (Json.nonEmptyStr? (message.get? "id")).isNone then
      throw s!"{subject} lacks an identified message"
    if message.get? "role" != some (.str role) then
      throw s!"{subject} message must have role \"{role}\""
    if (Json.nonEmptyStr? (source.get? "kind")).isNone then
      throw s!"{subject} message has invalid source"
    if (Json.arr? (message.get? "content")).isNone then
      throw s!"{subject} message has invalid content"
    match event.type with
    | .systemMessage =>
      if source.get? "kind" != some (.str "system-prompt") then
        throw s!"{subject} message must have system-prompt source"
    | .assistantMessage =>
      if source.get? "kind" != some (.str "model") || !hasProviderModel source then
        throw s!"{subject} message must have model source"
    | .toolResult =>
      if source.get? "kind" != some (.str "tool")
          || (Json.nonEmptyStr? (source.get? "callId")).isNone then
        throw s!"{subject} message must have tool source"
      if message.get? "toolCallId" != source.get? "callId" then
        throw s!"{subject} message has mismatched tool call ids"
    | _ => pure ()

/-- Reject obsolete request headers and malformed messages at the seed boundary. -/
def assertCurrentLlmShape (event : SessionEvent) (index : ℕ) : Except String Unit := do
  match event.type with
  | .requestHeader => assertRequestHeaderShape event.data index
  | .assistantAttempt => assertAssistantSettlementShape event index
  | .developerMessage | .systemMessage | .userMessage | .toolResult =>
    assertMessageEventShape event s!"seed {event.type.name} at index {index}"
  | .assistantMessage =>
    assertMessageEventShape event s!"seed {event.type.name} at index {index}"
    assertAssistantSettlementShape event index
  | _ => pure ()

/-- Validate the fixed event envelope and the shapes that replay depends on. -/
def assertSessionEventEnvelope (event : SessionEvent) (index : ℕ) : Except String Unit := do
  if event.extra ≠ [] ∨ Json.maxSafeInteger < event.seq ∨ !Json.isSafeInteger event.time
      ∨ (event.ignorable.isSome ∧ event.ignorable ≠ some (.bool true)) then
    throw s!"seed event at index {index} has an invalid event envelope"
  validateSessionEventData event s!"seed {event.type.name} at index {index}"
  assertCurrentLlmShape event index

end TianmaCoder
