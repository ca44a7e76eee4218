import Mathlib.Data.List.Basic
import TianmaCoder.Lib.Transition

/-!
# Traces of keyed events

A trace that interleaves the events of many keys, each of which goes through a machine of its
own. The word of a key is what the trace says about it; an event of one key leaves the word of
every other key as it was.

## Main definitions

* `KeyedTrace.word` — the events of one key, in order.
* `KeyedTrace.Follows` — the word of a key drives its machine to a state.
-/

namespace TianmaCoder

namespace KeyedTrace

variable {κ α σ : Type*} [DecidableEq κ] {k l : κ} {a : α} {trace : List (κ × α)}

/-- The events of one key, in order. -/
def word (k : κ) (trace : List (κ × α)) : List α :=
  trace.filterMap fun e => if e.1 = k then some e.2 else none

@[simp] theorem word_nil : word k ([] : List (κ × α)) = [] := rfl

theorem word_append (k : κ) (trace more : List (κ × α)) :
    word k (trace ++ more) = word k trace ++ word k more := List.filterMap_append

@[simp] theorem word_snoc_self : word k (trace ++ [(k, a)]) = word k trace ++ [a] := by
  simp [word]

theorem word_snoc_of_ne (h : l ≠ k) : word k (trace ++ [(l, a)]) = word k trace := by
  simp [word, h]

theorem word_map_self (as : List α) : word k (as.map fun a => (k, a)) = as := by
  simp [word, List.filterMap_map]

theorem word_map_of_ne (h : l ≠ k) (as : List α) : word k (as.map fun a => (l, a)) = [] := by
  rw [word, List.filterMap_eq_nil_iff]
  intro e he
  obtain ⟨a, _, rfl⟩ := List.mem_map.mp he
  exact if_neg h

variable (step : σ → α → Option σ) (init : σ)

/-- The word of the key drives its machine from the initial state to `s`. -/
def Follows (trace : List (κ × α)) (k : κ) (s : σ) : Prop :=
  Transition.run step init (word k trace) = some s

variable {step init} {s t : σ}

/-- A key follows on through a batch of its own events. -/
theorem Follows.append (h : Follows step init trace k s) {as : List α}
    (has : Transition.run step s as = some t) :
    Follows step init (trace ++ as.map fun a => (k, a)) k t := by
  rw [Follows, word_append, word_map_self, Transition.run_append, h]
  exact has

theorem Follows.snoc (h : Follows step init trace k s) (ha : step s a = some t) :
    Follows step init (trace ++ [(k, a)]) k t := by
  rw [Follows, word_snoc_self, Transition.run_append, h]
  simp [Transition.run, ha]

end KeyedTrace

end TianmaCoder
