import TianmaCoder.Session.Surface

/-!
# Tool-pairing balance over a surface

Compaction changes surface positions, so safe cuts are derived from the tool calls and the
results in current surface order. A surface of `n` nodes has `n + 1` cuts; a cut is balanced
when no unanswered call crosses it.

## Main definitions

* `cutBalances` — the balance of every cut.
* `toolPairingBalancedBefore`, `toolPairingBalancedAfter` — the cuts next to one node.
-/

namespace TianmaCoder

namespace Compaction

/-- How one surface event changes the number of calls in progress. -/
def eventDelta (event : SessionEvent) : ℤ :=
  match event.type with
  | .assistantMessage => event.toolCallBlocks.length
  | .toolResult => -1
  | _ => 0

/-- The balance of the cut after each node, given the calls in progress before the first. -/
def cutsFrom (log : List SessionEvent) (inProgress : ℤ) : List ℕ → Except String (List Bool)
  | [] => pure []
  | seq :: seqs =>
    match log[seq]? with
    | none =>
      throw s!"tool-pairing balance: surface seq {seq} has no matching session event (corrupt surface)"
    | some event => do
      let inProgress := inProgress + eventDelta event
      if inProgress < 0 then
        throw s!"tool-pairing balance: tool/result at surface seq {seq} has no matching tool-call (corrupt surface)"
      let cuts ← cutsFrom log inProgress seqs
      pure (decide (inProgress = 0) :: cuts)

/-- The balance of every cut of a surface. -/
def cutBalances (log : List SessionEvent) (nodes : List ℕ) : Except String (List Bool) := do
  let cuts ← cutsFrom log 0 nodes
  pure (true :: cuts)

/-- The balance of the cut at a node's position plus an offset. -/
def cutBalance (log : List SessionEvent) (nodes : List ℕ) (seq offset : ℕ) :
    Except String Bool := do
  let cuts ← cutBalances log nodes
  match (nodes.idxOf? seq).bind fun index => cuts[index + offset]? with
  | some balanced => pure balanced
  | none => throw s!"tool-pairing balance: surface seq {seq} not found"

/-- Whether the cut immediately before a current node is balanced. -/
def toolPairingBalancedBefore (log : List SessionEvent) (nodes : List ℕ) (seq : ℕ) :
    Except String Bool := cutBalance log nodes seq 0

/-- Whether the cut immediately after a current node is balanced. -/
def toolPairingBalancedAfter (log : List SessionEvent) (nodes : List ℕ) (seq : ℕ) :
    Except String Bool := cutBalance log nodes seq 1

end Compaction

end TianmaCoder
