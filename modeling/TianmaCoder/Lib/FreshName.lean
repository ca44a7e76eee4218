import Mathlib.Data.List.Lex
import Mathlib.Data.List.Nodup
import Mathlib.Data.List.Perm.Subperm
import Mathlib.Data.List.Range

/-!
# Unused names

A counter that names things and skips the names in use. Distinct names and one candidate more
than there are names in use leave one that is free, so the search ends at it.

## Main definitions

* `FreshName.firstUnused` — the first index whose name is free.

## Main results

* `FreshName.firstUnused_not_mem` — the search finds one.
* `FreshName.numbered_injective` — numbers after a fixed text are distinct names.
-/

namespace TianmaCoder

namespace FreshName

variable {α : Type*} [DecidableEq α] {name : ℕ → α} {used : List α}

/-- The first of `n, n + 1, …, n + more` whose name is not in use. -/
def firstUnused (name : ℕ → α) (used : List α) : ℕ → ℕ → ℕ
  | 0, n => n
  | more + 1, n => if name n ∈ used then firstUnused name used more (n + 1) else n

/-- More candidates than names in use leave one unused. -/
theorem exists_not_mem (hinj : Function.Injective name) (used : List α) (n : ℕ) :
    ∃ k ≤ used.length, name (n + k) ∉ used := by
  by_contra hall
  simp only [not_exists, not_and, not_not] at hall
  let names := (List.range (used.length + 1)).map fun k => name (n + k)
  have hnodup : names.Nodup := by
    refine List.Nodup.map ?_ List.nodup_range
    intro a b hab
    have heq := hinj hab
    omega
  have hsubset : names ⊆ used := by
    intro x hx
    obtain ⟨k, hk, rfl⟩ := List.mem_map.mp hx
    exact hall k (by rw [List.mem_range] at hk; omega)
  have hle := (hnodup.subperm hsubset).length_le
  rw [List.length_map, List.length_range] at hle
  omega

theorem firstUnused_of_exists {more n : ℕ} (h : ∃ k ≤ more, name (n + k) ∉ used) :
    name (firstUnused name used more n) ∉ used := by
  induction more generalizing n with
  | zero =>
    obtain ⟨k, hk, hfresh⟩ := h
    have hzero : k = 0 := by omega
    rw [hzero] at hfresh
    exact hfresh
  | succ more ih =>
    unfold firstUnused
    by_cases hmem : name n ∈ used
    · rw [if_pos hmem]
      obtain ⟨k, hk, hfresh⟩ := h
      have hpos : k ≠ 0 := by
        rintro rfl
        exact hfresh hmem
      have hshift : n + 1 + (k - 1) = n + k := by omega
      refine ih ⟨k - 1, by omega, ?_⟩
      rw [hshift]
      exact hfresh
    · rw [if_neg hmem]
      exact hmem

theorem firstUnused_not_mem (hinj : Function.Injective name) (used : List α) (n : ℕ) :
    name (firstUnused name used used.length n) ∉ used :=
  firstUnused_of_exists (exists_not_mem hinj used n)

/-- Numbers after a fixed text are distinct names. -/
theorem numbered_injective (text : String) :
    Function.Injective fun n : ℕ => text ++ toString n := by
  intro m n h
  have hlist := congrArg String.toList h
  simp only [String.toList_append, Nat.toString_eq_ofList_toDigits, String.toList_ofList,
    List.append_cancel_left_eq] at hlist
  rw [← Nat.ofDigitChars_ten_toDigits (n := m), hlist, Nat.ofDigitChars_ten_toDigits]

end FreshName

end TianmaCoder
