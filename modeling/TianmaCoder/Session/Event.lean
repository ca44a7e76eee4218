import TianmaCoder.Lib.Json

/-!
# Session events

One event of a session log. The envelope fields that a validator inspects as `unknown`
(`surfaceOp`, `sourceEventSeqs`, `ignorable`, further members) are raw JSON; `data` is the
payload. The typed reads below follow the payload declarations: where a payload declares a
string, a value of another kind reads as the empty string.

## Main definitions

* `EventType` — every type name the installed build or a released format knows.
* `SessionEvent` — the event envelope and its payload.
-/

namespace TianmaCoder

/-- An event type. Types after `workspaceChanges` occur in released formats only. -/
inductive EventType where
  | agentPresetSelected
  | agentInboxSpliced
  | approvalAsked
  | approvalDecided
  | approvalPolicy
  | assistantAttempt
  | assistantMessage
  | commandDone
  | commandRun
  | compactionEnd
  | compactionPrune
  | compactionStart
  | compactionSummary
  | deliverablesPresented
  | developerMessage
  | feedbackMessageDelete
  | feedbackMessagePut
  | feedbackRecord
  | goalChange
  | hookInvoked
  | hookResult
  | imageOffload
  | llmRetry
  | llmRetryStarted
  | modelSelection
  | permissionPreset
  | planMode
  | requestContext
  | requestHeader
  | sandboxMode
  | scheduleChange
  | sessionLogDeepseekDeliveryAccepted
  | sessionEndSeed
  | sessionTitle
  | sessionTitleLlmRequest
  | stepEnd
  | stepStart
  | subagentCatalog
  | subagentDescriptor
  | subagentModelSelectionPolicy
  | systemMessage
  | teamMember
  | teamMessageDelivered
  | teamMessageQueued
  | teamTask
  | todoWrite
  | toolWorkflowAgentEnd
  | toolWorkflowAgentStart
  | toolWorkflowRunEnd
  | toolWorkflowRunStart
  | toolCall
  | toolPtcDispatch
  | toolPtcDispatchStart
  | toolResult
  | turnEnd
  | turnStart
  | userMessage
  | webDeepseekSearchLlmRequest
  | workspaceChanges
  | assistantChunk
  | toolCodeDispatch
  | toolCodeDispatchStart
  /-- A type no build in this repository declares. -/
  | unknown (name : String)
  deriving DecidableEq, Repr, Inhabited

namespace EventType

/-- The durable name. -/
def name : EventType → String
  | .agentPresetSelected => "agent-preset/selected"
  | .agentInboxSpliced => "agent/inbox/spliced"
  | .approvalAsked => "approval/asked"
  | .approvalDecided => "approval/decided"
  | .approvalPolicy => "approval/policy"
  | .assistantAttempt => "assistant/attempt"
  | .assistantMessage => "assistant/message"
  | .commandDone => "command/done"
  | .commandRun => "command/run"
  | .compactionEnd => "compaction/end"
  | .compactionPrune => "compaction/prune"
  | .compactionStart => "compaction/start"
  | .compactionSummary => "compaction/summary"
  | .deliverablesPresented => "deliverables/presented"
  | .developerMessage => "developer/message"
  | .feedbackMessageDelete => "feedback/message-delete"
  | .feedbackMessagePut => "feedback/message-put"
  | .feedbackRecord => "feedback/record"
  | .goalChange => "goal/change"
  | .hookInvoked => "hook/invoked"
  | .hookResult => "hook/result"
  | .imageOffload => "image/offload"
  | .llmRetry => "llm/retry"
  | .llmRetryStarted => "llm/retry-started"
  | .modelSelection => "model/selection"
  | .permissionPreset => "permission/preset"
  | .planMode => "plan/mode"
  | .requestContext => "request/context"
  | .requestHeader => "request/header"
  | .sandboxMode => "sandbox/mode"
  | .scheduleChange => "schedule/change"
  | .sessionLogDeepseekDeliveryAccepted => "session-log-deepseek/delivery-accepted"
  | .sessionEndSeed => "session/end-seed"
  | .sessionTitle => "session/title"
  | .sessionTitleLlmRequest => "session/title-llm-request"
  | .stepEnd => "step/end"
  | .stepStart => "step/start"
  | .subagentCatalog => "subagent/catalog"
  | .subagentDescriptor => "subagent/descriptor"
  | .subagentModelSelectionPolicy => "subagent/model-selection-policy"
  | .systemMessage => "system/message"
  | .teamMember => "team/member"
  | .teamMessageDelivered => "team/message/delivered"
  | .teamMessageQueued => "team/message/queued"
  | .teamTask => "team/task"
  | .todoWrite => "todo/write"
  | .toolWorkflowAgentEnd => "tool-workflow/agent-end"
  | .toolWorkflowAgentStart => "tool-workflow/agent-start"
  | .toolWorkflowRunEnd => "tool-workflow/run-end"
  | .toolWorkflowRunStart => "tool-workflow/run-start"
  | .toolCall => "tool/call"
  | .toolPtcDispatch => "tool/ptc-dispatch"
  | .toolPtcDispatchStart => "tool/ptc-dispatch-start"
  | .toolResult => "tool/result"
  | .turnEnd => "turn/end"
  | .turnStart => "turn/start"
  | .userMessage => "user/message"
  | .webDeepseekSearchLlmRequest => "web/deepseek-search-llm-request"
  | .workspaceChanges => "workspace/changes"
  | .assistantChunk => "assistant/chunk"
  | .toolCodeDispatch => "tool/code-dispatch"
  | .toolCodeDispatchStart => "tool/code-dispatch-start"
  | .unknown name => name

/-- Membership in `KNOWN_SESSION_EVENT_TYPES`. -/
def isKnown : EventType → Bool
  | .assistantChunk | .toolCodeDispatch | .toolCodeDispatchStart | .unknown _ => false
  | _ => true

/-- Membership in `MESSAGE_PROJECTION_EVENT_TYPES`: effects that need an explicit interpreter. -/
def needsMessageProjection : EventType → Bool
  | .imageOffload => true
  | _ => false

/-- Whether an event type can join the model-visible surface. -/
def isSurfaceEligible : EventType → Bool
  | .systemMessage | .developerMessage | .userMessage | .assistantMessage | .toolResult => true
  | _ => false

end EventType

/-- One session event. -/
structure SessionEvent where
  type : EventType
  seq : ℕ
  time : ℤ
  data : Json
  surfaceOp : Option Json := none
  sourceEventSeqs : Option Json := none
  ignorable : Option Json := none
  /-- Envelope members outside the declared ones. -/
  extra : List (String × Json) := []
  deriving DecidableEq, Inhabited

namespace SessionEvent

/-- The payload member `k`. -/
def field (e : SessionEvent) (k : String) : Option Json := e.data.get? k

/-- The event joined the surface at its own log position. -/
def isAppend (e : SessionEvent) : Bool := e.surfaceOp == some (.str "append")

/-- The call a `tool/call` names. -/
def callId (e : SessionEvent) : String := (Json.str? (e.field "callId")).getD ""

/-- The call a `tool/result` answers, read from its message source. -/
def resultCallId (e : SessionEvent) : String :=
  (Json.str? (e.data.path ["message", "source", "callId"])).getD ""

/-- The content blocks of the event's message. -/
def messageContent (e : SessionEvent) : List Json :=
  (Json.arr? (e.data.path ["message", "content"])).getD []

/-- The ids of the tool-call blocks of an assistant message, in block order. -/
def toolCallBlocks (e : SessionEvent) : List String :=
  e.messageContent.filterMap fun block =>
    if block.get? "type" = some (.str "tool-call") then
      some ((Json.str? (block.get? "id")).getD "")
    else none

end SessionEvent

end TianmaCoder
