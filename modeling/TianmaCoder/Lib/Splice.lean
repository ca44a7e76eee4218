import Mathlib.Algebra.BigOperators.Group.List.Basic
import Mathlib.Tactic.Abel
import Mathlib.Data.Nat.Notation

/-!
# Replacing a range of a list by one item

`splice xs i j x` puts `x` in the place of the items of `xs` from position `i` to position `j`,
both included, and `segment xs i j` is what it takes out.

## Main results

* `take_segment_drop` — a list is its segment between the parts around it.
* `sum_splice` — what a splice does to a total.
-/

namespace TianmaCoder.Splice

universe u v

variable {α : Type u} {β : Type v}

/-- The items from position `i` to position `j`, both included. -/
def segment (xs : List α) (i j : ℕ) : List α := (xs.take (j + 1)).drop i

/-- The list with one item in place of the segment. -/
def splice (xs : List α) (i j : ℕ) (x : α) : List α := xs.take i ++ x :: xs.drop (j + 1)

theorem take_segment_drop (xs : List α) {i j : ℕ} (h : i ≤ j) :
    xs.take i ++ (segment xs i j ++ xs.drop (j + 1)) = xs := by
  have hle : i ≤ j + 1 := Nat.le_succ_of_le h
  have htake : xs.take i = (xs.take (j + 1)).take i := by
    rw [List.take_take, Nat.min_eq_left hle]
  rw [← List.append_assoc, segment, htake, List.take_append_drop, List.take_append_drop]

theorem map_segment (f : α → β) (xs : List α) (i j : ℕ) :
    (segment xs i j).map f = segment (xs.map f) i j := by
  simp [segment]

theorem map_splice (f : α → β) (xs : List α) (i j : ℕ) (x : α) :
    (splice xs i j x).map f = splice (xs.map f) i j (f x) := by
  simp [splice]

theorem mem_of_mem_segment {xs : List α} {i j : ℕ} {x : α} (h : x ∈ segment xs i j) : x ∈ xs :=
  List.mem_of_mem_take (List.mem_of_mem_drop h)

/-- What stands outside the segment survives its replacement. -/
theorem mem_splice_of_not_mem_segment {xs : List α} {i j : ℕ} (h : i ≤ j) {x : α} (hx : x ∈ xs)
    (hsegment : x ∉ segment xs i j) (y : α) : x ∈ splice xs i j y := by
  rw [← take_segment_drop xs h] at hx
  rcases List.mem_append.mp hx with hx | hx
  · exact List.mem_append_left _ hx
  · rcases List.mem_append.mp hx with hx | hx
    · exact absurd hx hsegment
    · exact List.mem_append_right _ (List.mem_cons_of_mem _ hx)

/-- A splice moves a total by the price of the new item minus the price of the segment. -/
theorem sum_splice {M : Type*} [AddCommMonoid M] (f : α → M) (xs : List α) {i j : ℕ} (h : i ≤ j)
    (x : α) :
    ((splice xs i j x).map f).sum + ((segment xs i j).map f).sum = (xs.map f).sum + f x := by
  have hparts := congrArg (fun ys => (ys.map f).sum) (take_segment_drop xs h)
  simp only [List.map_append, List.sum_append] at hparts
  simp only [splice, List.map_append, List.map_cons, List.sum_append, List.sum_cons]
  rw [← hparts]
  abel

end TianmaCoder.Splice
