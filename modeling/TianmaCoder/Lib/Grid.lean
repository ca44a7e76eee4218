import Mathlib.Algebra.Order.Floor.Ring
import Mathlib.Data.Int.SuccPred
import Mathlib.Data.List.ReduceOption
import Mathlib.Data.Rat.Floor
import Mathlib.Order.Bounds.Basic
import Mathlib.Tactic.Linarith
import Mathlib.Tactic.Ring
import TianmaCoder.Lib.Machine

/-!
# Points at a fixed interval

A grid starts at a point and goes on at a fixed interval. The last point that is not after a
given one has a closed form, and so has the first point after it; a reader that starts anew at
any point of a grid sees the rest of the same grid.

## Main definitions

* `Grid.points`, `Grid.last` — the grid, and the last point not after a given one.
* `Grid.upTo`, `Grid.enumerator` — the points up to a bound, and the machine that goes through
  them.
* `Grid.LongStretches` — a function that keeps each value for a while.
* `Rounding` — what a division may do to its exact quotient.

## Main results

* `Grid.isGreatest_last`, `Grid.isLeast_next` — the closed forms.
* `Grid.points_of_mem` — starting anew.
* `Grid.enumerator_step` — one decision of the enumeration.
* `Rounding.floor_div` — a rounded quotient of small integers has the exact floor.
-/

namespace TianmaCoder

namespace Grid

variable {start step t : ℤ}

/-- The points of the grid. -/
def points (start step : ℤ) : Set ℤ := {p | ∃ k : ℕ, p = start + k * step}

/-- The last point that is not after `t`. -/
def last (start step t : ℤ) : ℤ := start + (t - start) / step * step

theorem start_mem (start step : ℤ) : start ∈ points start step := ⟨0, by simp⟩

theorem start_le (hstep : 0 < step) {p : ℤ} (hp : p ∈ points start step) : start ≤ p := by
  obtain ⟨k, rfl⟩ := hp
  have hpos : 0 ≤ (k : ℤ) * step := Int.mul_nonneg (by omega) (by omega)
  omega

theorem last_mem (hstep : 0 < step) (ht : start ≤ t) : last start step t ∈ points start step := by
  have hsteps : 0 ≤ (t - start) / step := Int.ediv_nonneg (by omega) (by omega)
  exact ⟨((t - start) / step).toNat, by rw [Int.toNat_of_nonneg hsteps]; rfl⟩

theorem last_le (hstep : 0 < step) : last start step t ≤ t := by
  have hle := Int.ediv_mul_le (t - start) (Int.ne_of_gt hstep)
  unfold last
  omega

theorem le_last (hstep : 0 < step) (ht : start ≤ t) : start ≤ last start step t := by
  have hsteps : 0 ≤ (t - start) / step * step :=
    Int.mul_nonneg (Int.ediv_nonneg (by omega) (by omega)) (by omega)
  unfold last
  omega

theorem lt_next (hstep : 0 < step) : t < last start step t + step := by
  have hlt := Int.lt_ediv_add_one_mul_self (t - start) hstep
  have hexpand : ((t - start) / step + 1) * step = (t - start) / step * step + step := by ring
  unfold last
  omega

/-- The points before and after two neighbours of the grid. -/
theorem le_or_next_le (hstep : 0 < step) {p q : ℤ} (hp : p ∈ points start step)
    (hq : q ∈ points start step) : p ≤ q ∨ q + step ≤ p := by
  obtain ⟨i, rfl⟩ := hp
  obtain ⟨j, rfl⟩ := hq
  by_cases hij : i ≤ j
  · left
    have hle : (i : ℤ) * step ≤ j * step :=
      Int.mul_le_mul_of_nonneg_right (by exact_mod_cast hij) (by omega)
    omega
  · right
    have hle : ((j : ℤ) + 1) * step ≤ i * step :=
      Int.mul_le_mul_of_nonneg_right (by omega) (by omega)
    have hexpand : ((j : ℤ) + 1) * step = j * step + step := by ring
    omega

theorem next_mem {p : ℤ} (hp : p ∈ points start step) : p + step ∈ points start step := by
  obtain ⟨k, rfl⟩ := hp
  exact ⟨k + 1, by push_cast; ring⟩

theorem isGreatest_last (hstep : 0 < step) (ht : start ≤ t) :
    IsGreatest {p | p ∈ points start step ∧ p ≤ t} (last start step t) := by
  constructor
  · exact ⟨last_mem hstep ht, last_le hstep⟩
  · rintro p ⟨hp, hpt⟩
    have hlt : t < last start step t + step := lt_next hstep
    rcases le_or_next_le hstep hp (last_mem hstep ht) with hle | hge
    · exact hle
    · omega

theorem isLeast_next (hstep : 0 < step) (ht : start ≤ t) :
    IsLeast {p | p ∈ points start step ∧ t < p} (last start step t + step) := by
  constructor
  · exact ⟨next_mem (last_mem hstep ht), lt_next hstep⟩
  · rintro p ⟨hp, hpt⟩
    have hle : last start step t ≤ t := last_le hstep
    rcases le_or_next_le hstep hp (last_mem hstep ht) with hle' | hge
    · omega
    · exact hge

theorem points_of_mem (hstep : 0 < step) {q : ℤ} (hq : q ∈ points start step) :
    points q step = {p | p ∈ points start step ∧ q ≤ p} := by
  obtain ⟨j, rfl⟩ := hq
  ext p
  constructor
  · rintro ⟨k, rfl⟩
    refine ⟨⟨j + k, by push_cast; ring⟩, ?_⟩
    have hpos : 0 ≤ (k : ℤ) * step := Int.mul_nonneg (by omega) (by omega)
    omega
  · rintro ⟨⟨i, rfl⟩, hle⟩
    have hij : j ≤ i := by
      by_contra hlt
      have hmul : ((i : ℤ) + 1) * step ≤ j * step :=
        Int.mul_le_mul_of_nonneg_right (by omega) (by omega)
      have hexpand : ((i : ℤ) + 1) * step = i * step + step := by ring
      omega
    refine ⟨i - j, ?_⟩
    push_cast [hij]
    ring

/-- The last point before `t` and the first one after it do not depend on where the grid is
entered, as long as it is not entered behind `t`. -/
theorem below_of_mem (hstep : 0 < step) {q : ℤ} (hq : q ∈ points start step) (hqt : q ≤ t) :
    IsGreatest {p | p ∈ points start step ∧ p ≤ t} (last q step t) ∧
      IsLeast {p | p ∈ points start step ∧ t < p} (last q step t + step) := by
  have hanew := points_of_mem hstep hq
  have hgreatest := isGreatest_last hstep hqt
  have hleast := isLeast_next hstep hqt
  rw [hanew] at hgreatest hleast
  refine ⟨⟨⟨hgreatest.1.1.1, hgreatest.1.2⟩, ?_⟩, ⟨⟨hleast.1.1.1, hleast.1.2⟩, ?_⟩⟩
  · rintro p ⟨hp, hpt⟩
    by_cases hqp : q ≤ p
    · exact hgreatest.2 ⟨⟨hp, hqp⟩, hpt⟩
    · exact le_trans (by omega) hgreatest.1.1.2
  · rintro p ⟨hp, hpt⟩
    exact hleast.2 ⟨⟨hp, by omega⟩, hpt⟩

/-! ## Enumeration -/

/-- The points up to a bound, in order. -/
def upTo (start step bound : ℤ) : List ℤ :=
  (List.range ((bound - start) / step + 1).toNat).map fun k : ℕ => start + k * step

/-- One decision goes through the points that are due and keeps the latest of them. -/
def enumerator : Machine (List ℤ) ℤ (Option ℤ) where
  step remaining now :=
    (remaining.dropWhile (· ≤ now), (remaining.takeWhile (· ≤ now)).getLast?)

variable {bound : ℤ}

theorem mem_upTo (hstep : 0 < step) {p : ℤ} :
    p ∈ upTo start step bound ↔ p ∈ points start step ∧ p ≤ bound := by
  simp only [upTo, points, List.mem_map, List.mem_range, Set.mem_ofPred_eq]
  constructor
  · rintro ⟨k, hk, rfl⟩
    refine ⟨⟨k, rfl⟩, ?_⟩
    have hle : (k : ℤ) ≤ (bound - start) / step := by omega
    have hmul := (Int.le_ediv_iff_mul_le hstep).mp hle
    omega
  · rintro ⟨⟨k, rfl⟩, hle⟩
    refine ⟨k, ?_, rfl⟩
    have hk : (k : ℤ) ≤ (bound - start) / step := (Int.le_ediv_iff_mul_le hstep).mpr (by omega)
    omega

theorem upTo_eq_nil (hstep : 0 < step) (h : bound < start) : upTo start step bound = [] := by
  rw [List.eq_nil_iff_forall_not_mem]
  intro p hp
  obtain ⟨⟨k, rfl⟩, hle⟩ := (mem_upTo hstep).mp hp
  have hpos : 0 ≤ (k : ℤ) * step := Int.mul_nonneg (by omega) (by omega)
  omega

/-- The points in order are strictly increasing. -/
theorem pairwise_upTo (hstep : 0 < step) (start bound : ℤ) :
    (upTo start step bound).Pairwise (· < ·) := by
  rw [upTo, List.pairwise_map]
  refine List.pairwise_lt_range.imp ?_
  intro i j hij
  have hmul : ((i : ℤ) + 1) * step ≤ j * step :=
    Int.mul_le_mul_of_nonneg_right (by omega) (by omega)
  have hexpand : ((i : ℤ) + 1) * step = i * step + step := by ring
  omega

theorem upTo_split (hstep : 0 < step) (ht : start ≤ t) (hbound : t ≤ bound) :
    ∃ due, upTo start step bound
        = due ++ last start step t :: upTo (last start step t + step) step bound ∧
      ∀ p ∈ due, p ≤ t := by
  have hsteps : 0 ≤ (t - start) / step := Int.ediv_nonneg (by omega) (by omega)
  have hmono : (t - start) / step ≤ (bound - start) / step :=
    Int.ediv_le_ediv hstep (by omega)
  obtain ⟨n, hn⟩ := Int.eq_ofNat_of_zero_le hsteps
  refine ⟨(List.range n).map fun k : ℕ => start + k * step, ?_, ?_⟩
  · have hlast : last start step t = start + n * step := by rw [last, hn]
    have hrest : (bound - (start + n * step + step)) / step + 1 = (bound - start) / step - n := by
      have hsplit : bound - (start + n * step + step) = bound - start + (-(n + 1 : ℤ)) * step := by
        ring
      rw [hsplit, Int.add_mul_ediv_right _ _ (Int.ne_of_gt hstep)]
      omega
    have hcount : ((bound - start) / step + 1).toNat
        = n + (((bound - start) / step - n).toNat + 1) := by omega
    rw [upTo, upTo, hlast, hrest, hcount, List.range_add, List.map_append, List.map_map,
      List.range_succ_eq_map, List.map_cons, List.map_map]
    congr 1
    simp only [Function.comp_apply, Nat.add_zero]
    congr 1
    refine List.map_congr_left ?_
    intro k _
    simp only [Function.comp_apply]
    push_cast
    ring
  · intro p hp
    obtain ⟨k, hk, rfl⟩ := List.mem_map.mp hp
    rw [List.mem_range] at hk
    have hmul : (k : ℤ) * step ≤ n * step :=
      Int.mul_le_mul_of_nonneg_right (by omega) (by omega)
    have hle : last start step t ≤ t := last_le hstep
    rw [last, hn] at hle
    omega

/-- A decision that is not before the first point finds the closed form, and leaves the points of
the grid that starts anew behind it. -/
theorem enumerator_step (hstep : 0 < step) (ht : start ≤ t) (hbound : t ≤ bound) :
    enumerator.step (upTo start step bound) t
      = (upTo (last start step t + step) step bound, some (last start step t)) := by
  obtain ⟨due, hsplit, hdue⟩ := upTo_split hstep ht hbound
  have hlast : last start step t ≤ t := last_le hstep
  have hlater : ∀ p ∈ upTo (last start step t + step) step bound, ¬p ≤ t := by
    intro p hp
    obtain ⟨⟨k, rfl⟩, -⟩ := (mem_upTo hstep).mp hp
    have hpos : 0 ≤ (k : ℤ) * step := Int.mul_nonneg (by omega) (by omega)
    have hlt : t < last start step t + step := lt_next hstep
    omega
  have hrest : ∀ rest : List ℤ, (∀ p ∈ rest, ¬p ≤ t) →
      rest.takeWhile (· ≤ t) = [] ∧ rest.dropWhile (· ≤ t) = rest := by
    intro rest hrest
    cases rest with
    | nil => exact ⟨rfl, rfl⟩
    | cons p rest =>
      have hp := hrest p List.mem_cons_self
      simp [hp]
  obtain ⟨htake, hdrop⟩ := hrest _ hlater
  have hall : ∀ p ∈ due ++ [last start step t], decide (p ≤ t) = true := by
    intro p hp
    rcases List.mem_append.mp hp with hp | hp
    · exact decide_eq_true (hdue p hp)
    · rw [List.mem_singleton] at hp
      exact decide_eq_true (hp ▸ hlast)
  have hcut : upTo start step bound
      = (due ++ [last start step t]) ++ upTo (last start step t + step) step bound := by
    rw [hsplit, List.append_assoc]
    rfl
  simp only [enumerator]
  rw [hcut, List.takeWhile_append_of_pos hall, List.dropWhile_append_of_pos hall, htake, hdrop,
    List.append_nil, List.getLast?_append_of_ne_nil _ (List.cons_ne_nil _ _)]
  rfl

/-- A decision before the first point finds nothing. -/
theorem enumerator_step_early (hstep : 0 < step) (ht : t < start) :
    enumerator.step (upTo start step bound) t = (upTo start step bound, none) := by
  simp only [enumerator]
  cases hpoints : upTo start step bound with
  | nil => rfl
  | cons p rest =>
    have hmem : p ∈ upTo start step bound := by rw [hpoints]; exact List.mem_cons_self
    obtain ⟨⟨k, rfl⟩, -⟩ := (mem_upTo hstep).mp hmem
    have hpos : 0 ≤ (k : ℤ) * step := Int.mul_nonneg (by omega) (by omega)
    have hlate : ¬start + (k : ℤ) * step ≤ t := by omega
    simp [hlate]

/-- What the decisions find is part of the points, in order. -/
theorem outputs_sublist (remaining times : List ℤ) :
    ((enumerator.outputs remaining times).reduceOption).Sublist remaining := by
  induction times generalizing remaining with
  | nil => exact List.nil_sublist _
  | cons now times ih =>
    have hrest := ih (remaining.dropWhile (· ≤ now))
    rw [Machine.outputs_cons]
    have hsplit := List.takeWhile_append_dropWhile (p := (· ≤ now)) (l := remaining)
    simp only [enumerator] at hrest ⊢
    cases hlast : (remaining.takeWhile (· ≤ now)).getLast? with
    | none =>
      rw [List.reduceOption_cons_of_none]
      exact hrest.trans (List.dropWhile_sublist _)
    | some p =>
      rw [List.reduceOption_cons_of_some]
      have hp : [p].Sublist (remaining.takeWhile (· ≤ now)) :=
        List.singleton_sublist.mpr (List.mem_of_getLast? hlast)
      have hboth := hp.append hrest
      rwa [hsplit] at hboth

/-! ## Sampling -/

/-- Every value of a function holds for at least `step` at a time. -/
def LongStretches {α : Type*} (f : ℤ → α) (step : ℤ) : Prop :=
  ∀ t, ∃ a b, a ≤ t ∧ t < b ∧ step ≤ b - a ∧ ∀ s, a ≤ s → s < b → f s = f t

/-- Between two samples that are `step` apart, a value holds on one of the two sides. -/
theorem LongStretches.sampled {α : Type*} {f : ℤ → α} (h : LongStretches f step) (g t : ℤ) :
    (∀ s, g ≤ s → s ≤ t → f s = f t) ∨ ∀ s, t ≤ s → s ≤ g + step → f s = f t := by
  obtain ⟨a, b, hat, htb, hlong, hsame⟩ := h t
  by_cases hag : a ≤ g
  · left
    intro s hgs hst
    exact hsame s (by omega) (by omega)
  · right
    intro s hts hsg
    exact hsame s (by omega) (by omega)

end Grid

/-! ## Rounded quotients -/

/-- A rounding of quotients that keeps their order and the integers up to `2 ^ 53`, and moves
none between `2 ^ (-53)` and `2 ^ 53` by more than its `2 ^ 53`-th part. -/
structure Rounding where
  round : ℚ → ℚ
  mono : ∀ {x y}, x ≤ y → round x ≤ round y
  exact : ∀ n : ℤ, |n| ≤ 2 ^ 53 → round n = n
  near : ∀ x, 1 / 2 ^ 53 ≤ x → x ≤ 2 ^ 53 → |round x - x| ≤ x / 2 ^ 53

namespace Rounding

/-- The exact quotients. -/
def exactly : Rounding where
  round := id
  mono h := h
  exact _ _ := rfl
  near x hlow _ := by
    have hpos : (0 : ℚ) ≤ x := le_trans (by positivity) hlow
    simp only [id_eq, sub_self, abs_zero]
    positivity

/-- A rounded quotient of integers below `2 ^ 53` has the exact floor. -/
theorem floor_div (r : Rounding) {a b : ℤ} (ha : 0 ≤ a) (hsmall : a < 2 ^ 53) (hb : 0 < b)
    (hbsmall : b ≤ 2 ^ 53) : ⌊r.round ((a : ℚ) / b)⌋ = a / b := by
  by_cases hzero : a = 0
  · have hexact := r.exact 0 (by norm_num)
    rw [hzero]
    simp only [Int.cast_zero, zero_div, Int.zero_ediv] at hexact ⊢
    rw [hexact, Int.floor_zero]
  have hbq : (0 : ℚ) < b := by exact_mod_cast hb
  have hone : (1 : ℚ) ≤ a := by exact_mod_cast (by omega : 1 ≤ a)
  have hlt : (a : ℚ) < 2 ^ 53 := by exact_mod_cast hsmall
  have hble : (b : ℚ) ≤ 2 ^ 53 := by exact_mod_cast hbsmall
  have hdiv : a / b * b + a % b = a := Int.ediv_mul_add_emod a b
  have hmod := Int.emod_lt_of_pos a hb
  have hmodNonneg := Int.emod_nonneg a (Int.ne_of_gt hb)
  have hquot : 0 ≤ a / b := Int.ediv_nonneg ha (by omega)
  have hquotLe : a / b ≤ a := Int.ediv_le_self b ha
  rw [Int.floor_eq_iff]
  constructor
  · have hfloor : ((a / b : ℤ) : ℚ) ≤ (a : ℚ) / b := by
      rw [le_div_iff₀ hbq]
      exact_mod_cast Int.ediv_mul_le a (Int.ne_of_gt hb)
    have hround := r.mono hfloor
    rwa [r.exact _ (by rw [abs_of_nonneg hquot]; omega)] at hround
  · have hlow : (1 : ℚ) / 2 ^ 53 ≤ a / b := by
      rw [div_le_div_iff₀ (by positivity) hbq]
      linarith
    have hhigh : (a : ℚ) / b ≤ 2 ^ 53 := by
      have hb1 : (1 : ℚ) ≤ b := by exact_mod_cast (by omega : 1 ≤ b)
      rw [div_le_iff₀ hbq]
      linarith
    have hupper := (abs_le.mp (r.near _ hlow hhigh)).2
    -- the exact quotient lies one part of the divisor below the next integer
    have hgap : (a : ℚ) / b ≤ ((a / b : ℤ) : ℚ) + 1 - 1 / b := by
      rw [div_le_iff₀ hbq]
      have hstep : (a : ℚ) ≤ ((a / b : ℤ) : ℚ) * b + b - 1 := by
        exact_mod_cast (by omega : a ≤ a / b * b + b - 1)
      have hexpand : (((a / b : ℤ) : ℚ) + 1 - 1 / b) * b = ((a / b : ℤ) : ℚ) * b + b - 1 := by
        field_simp
      rw [hexpand]
      exact hstep
    have herror : (a : ℚ) / b / 2 ^ 53 < 1 / b := by
      rw [div_div, div_lt_div_iff₀ (by positivity) hbq]
      nlinarith
    linarith

end Rounding

end TianmaCoder
