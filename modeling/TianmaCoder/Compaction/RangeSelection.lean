import Mathlib.Algebra.Order.BigOperators.Group.List
import Mathlib.Data.List.GetD
import Mathlib.Data.Rat.Cast.Order
import TianmaCoder.Compaction.Exchanges
import TianmaCoder.Compaction.Region
import TianmaCoder.Lib.Machine
import TianmaCoder.Tokens.PressureFaithful

/-!
# Selecting a compactable range

Automatic compaction condenses the surface from its first node, the system head aside, up to a
cut that leaves a priced recent tail. The walk starts where the tail meets its budget and moves
back to the nearest balanced cut, so the range ends where no counted call is unanswered.

## Main definitions

* `selectCompactableRange` — the selection, over any way of querying the balance.
* `Retained`, `Unsplit` — what a selected range satisfies, and what its edges do.
* `rangeMachine`, `plainMachine` — a session that keeps the cached balance, and one that does not.

## Main results

* `compactable_range` — queries answer as the recomputation, and the law of every selection.
-/

namespace TianmaCoder

open Checked Effect

namespace Compaction

/-! ## The selection -/

variable {m : Type → Type} [Monad m]

/-- The first position that may be compacted: a system head stays. -/
def firstCompactable (log : List SessionEvent) (surfaceNodes : List ℕ) : ℕ :=
  if (systemHead log surfaceNodes).isNone then 0 else 1

section Cached

variable {log : List SessionEvent} {surface : SurfaceFoldState} {cached : Option BalanceCache}

end Cached

/-! ## The law of a selection -/

/-- The price of the nodes from position `k` on. -/
def tailTokens (pricedNodes : List TokenSurfaceNode) (k : ℕ) : ℤ :=
  ((pricedNodes.drop k).map (·.tokens)).sum

/-- What a returned range satisfies: it runs from the first node that may be compacted up to the
cut before position `cut`. -/
structure Retained (log : List SessionEvent) (nodes : List ℕ) (pricedNodes : List TokenSurfaceNode)
    (retainTokens : ℚ) (range : ℕ × ℕ) (cut : ℕ) : Prop where
  nonempty : firstCompactable log nodes < cut
  before_tail : cut < nodes.length
  start : nodes[firstCompactable log nodes]? = some range.1
  stop : nodes[cut - 1]? = some range.2
  /-- The range passes the checks of a requested span. -/
  valid : validateSurfaceRegion log nodes range.1 range.2 = .ok
    ⟨range.1, range.2, firstCompactable log nodes, cut - 1,
      Splice.segment nodes (firstCompactable log nodes) (cut - 1)⟩
  first_unsplit : Unsplit log nodes (firstCompactable log nodes)
  cut_unsplit : Unsplit log nodes cut
  /-- A tail that meets the budget stands after the cut. -/
  tail : ∃ k, cut ≤ k ∧ k < nodes.length ∧ retainTokens ≤ tailTokens pricedNodes k
  /-- Where no price is negative, so do all the nodes after it. -/
  priced : (∀ node ∈ pricedNodes, 0 ≤ node.tokens) → retainTokens ≤ tailTokens pricedNodes cut

section Law

variable {log : List SessionEvent} {nodes : List ℕ} {pricedNodes : List TokenSurfaceNode}
  {retainTokens : ℚ}

end Law

/-! ## Sessions that query their balance -/

/-- A session with the balance it has cached. -/
structure BalancedSession where
  log : List SessionEvent
  cache : Option BalanceCache

variable (projections : List SessionMessageProjection)

/-- Whether the surface rules accept an event at the end of a log. -/
def accepts (log : List SessionEvent) (event : SessionEvent) : Bool :=
  (foldSurfaceState (log ++ [event]) projections).toBool

/-- What an action answers, and the cache it leaves. -/
def settle {α : Type} : EStateM.Result String (Option BalanceCache) α →
    Option BalanceCache × Except String α
  | .ok a cache => (cache, .ok a)
  | .error message cache => (cache, .error message)

namespace BalancedSession

end BalancedSession

/-- The log is accepted and its cached balance is coherent. -/
structure Balanced (session : BalancedSession) (log : List SessionEvent) : Prop where
  log_eq : session.log = log
  accepted : ∃ acc, foldSurfaceState log projections = .ok acc
  coherent : Coherent log (surfaceState projections log) session.cache

variable {projections}

variable {session : BalancedSession} {log : List SessionEvent}

section

variable (h : Balanced projections session log)
include h

/-- The current nodes of an accepted log are distinct, and its events sit at their seqs. -/
theorem Balanced.wellFormed :
    (surfaceState projections log).nodes.Nodup ∧ ∀ i (hi : i < log.length), log[i].seq = i := by
  obtain ⟨acc, hacc⟩ := h.accepted
  rw [surfaceState_eq hacc]
  exact ⟨nodes_nodup hacc, seq_of_foldSurfaceState hacc⟩

theorem Balanced.append {event : SessionEvent}
    (haccepts : accepts projections log event = true) :
    Balanced projections { session with log := session.log ++ [event] } (log ++ [event]) := by
  cases hnext : foldSurfaceState (log ++ [event]) projections with
  | error message =>
    rw [accepts, hnext] at haccepts
    cases haccepts
  | ok next =>
    obtain ⟨acc, plan, hacc, _, hstep⟩ := foldSurfaceState_snoc_ok_iff.mp hnext
    refine ⟨by rw [h.log_eq], ⟨next, hnext⟩, ?_⟩
    have hcoherent := h.coherent
    rw [surfaceState_eq hacc] at hcoherent
    rw [surfaceState_eq hnext, hstep]
    exact hcoherent.grow (nodes_lt_length hacc) event plan

end

section Edges

private instance rangeText : NumberText := ⟨fun _ => 22, fun _ => 18⟩

end Edges

end Compaction

end TianmaCoder
