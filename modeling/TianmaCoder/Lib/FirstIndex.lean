import Mathlib.Data.List.Basic
import Mathlib.Data.Nat.Notation

/-!
# The first occurrence of a pattern

Where a pattern begins first in a list. Items behind an occurrence do not move it, and an occurrence
that ends within the front of a list is one of the front.

## Main results

* `firstIndex_append`, `firstIndex_of_append` — the front of a list and the whole.
* `firstIndex_separator` — a pattern behind items that do not begin it.
-/

namespace TianmaCoder

variable {α : Type*} [BEq α] [LawfulBEq α] {pattern : List α}

/-- The position at which a pattern begins first. -/
def firstIndex (pattern : List α) : List α → Option ℕ
  | [] => if pattern.isEmpty then some 0 else none
  | x :: xs =>
    if pattern.isPrefixOf (x :: xs) then some 0 else (firstIndex pattern xs).map (· + 1)

theorem firstIndex_le {xs : List α} {i : ℕ} (h : firstIndex pattern xs = some i) :
    i + pattern.length ≤ xs.length := by
  induction xs generalizing i with
  | nil =>
    unfold firstIndex at h
    split at h
    · next hempty =>
        cases h
        simp [List.isEmpty_iff.mp hempty]
    · cases h
  | cons x xs ih =>
    unfold firstIndex at h
    split at h
    · next hpre =>
        cases h
        have hle := (List.isPrefixOf_iff_prefix.mp hpre).length_le
        omega
    · obtain ⟨j, hj, rfl⟩ := Option.map_eq_some_iff.mp h
      have hle := ih hj
      rw [List.length_cons]
      omega

/-- Items behind an occurrence do not move it. -/
theorem firstIndex_append {xs : List α} {i : ℕ} (h : firstIndex pattern xs = some i)
    (ys : List α) : firstIndex pattern (xs ++ ys) = some i := by
  induction xs generalizing i with
  | nil =>
    unfold firstIndex at h
    split at h
    · next hempty =>
        cases h
        rw [List.isEmpty_iff.mp hempty]
        cases ys <;> rfl
    · cases h
  | cons x xs ih =>
    unfold firstIndex at h
    rw [List.cons_append, firstIndex]
    split at h
    · next hpre =>
        cases h
        have hfront := (List.isPrefixOf_iff_prefix.mp hpre).trans (List.prefix_append _ ys)
        exact if_pos (List.isPrefixOf_iff_prefix.mpr hfront)
    · next hnot =>
        obtain ⟨j, hj, rfl⟩ := Option.map_eq_some_iff.mp h
        have hwhole : ¬pattern.isPrefixOf (x :: (xs ++ ys)) = true := by
          intro hpre
          refine hnot (List.isPrefixOf_iff_prefix.mpr ?_)
          have hfront := List.isPrefixOf_iff_prefix.mp hpre
          rw [← List.cons_append] at hfront
          refine List.prefix_of_prefix_length_le hfront (List.prefix_append _ _) ?_
          have hj := firstIndex_le hj
          rw [List.length_cons]
          omega
        rw [if_neg hwhole, ih hj]
        rfl

/-- An occurrence that ends within the front is one of the front. -/
theorem firstIndex_of_append {xs ys : List α} {i : ℕ} (h : firstIndex pattern (xs ++ ys) = some i)
    (hle : i + pattern.length ≤ xs.length) : firstIndex pattern xs = some i := by
  induction xs generalizing i with
  | nil =>
    have hempty : pattern = [] := by
      rw [← List.length_eq_zero_iff]
      simp only [List.length_nil] at hle
      omega
    have hzero : i = 0 := by
      simp only [List.length_nil] at hle
      omega
    simp [firstIndex, hempty, hzero]
  | cons x xs ih =>
    rw [List.cons_append, firstIndex] at h
    rw [firstIndex]
    split at h
    · next hpre =>
        cases h
        have hfront := List.isPrefixOf_iff_prefix.mp hpre
        rw [← List.cons_append] at hfront
        have hwithin : pattern <+: x :: xs :=
          List.prefix_of_prefix_length_le hfront (List.prefix_append _ _) (by omega)
        rw [if_pos (List.isPrefixOf_iff_prefix.mpr hwithin)]
    · next hnot =>
        obtain ⟨j, hj, rfl⟩ := Option.map_eq_some_iff.mp h
        have hwhole : ¬pattern.isPrefixOf (x :: xs) = true := by
          intro hpre
          refine hnot (List.isPrefixOf_iff_prefix.mpr ?_)
          exact (List.isPrefixOf_iff_prefix.mp hpre).trans (List.prefix_append _ ys)
        rw [List.length_cons] at hle
        rw [if_neg hwhole, ih hj (by omega)]
        rfl

theorem firstIndex_separator {first : α} {others xs : List α} (h : first ∉ xs) (rest : List α) :
    firstIndex (first :: others) (xs ++ first :: others ++ rest) = some xs.length := by
  induction xs with
  | nil =>
    rw [List.nil_append, List.cons_append, firstIndex, ← List.cons_append, if_pos]
    · rfl
    · exact List.isPrefixOf_iff_prefix.mpr (List.prefix_append _ _)
  | cons x xs ih =>
    rw [List.mem_cons, not_or] at h
    have hnot : ¬(first :: others).isPrefixOf (x :: (xs ++ first :: others ++ rest)) = true := by
      intro hpre
      exact h.1 (List.cons_prefix_cons.mp (List.isPrefixOf_iff_prefix.mp hpre)).1
    rw [List.cons_append, List.cons_append, firstIndex, if_neg hnot, ih h.2]
    rfl

end TianmaCoder
