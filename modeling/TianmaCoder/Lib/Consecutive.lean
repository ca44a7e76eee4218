import Mathlib.Data.List.Chain
import Mathlib.Order.Cover

/-!
# Lists of consecutive ranges

Items that each cover a range of positions, one range right after the other. Such a list is
strictly increasing, and it is determined by what it is made of: a list of consecutive ranges
whose items all come from another such list is a contiguous part of it.

## Main definitions

* `Consecutive` — each range begins where the one before it ends.
* `reach` — the last position of a list, or the position it was entered with.

## Main results

* `Consecutive.nodup`, `Consecutive.infix_of_subset`.
-/

namespace TianmaCoder

variable {ι α : Type*} {first last : ι → α}

/-- Every range is in order, and the next one begins right after it. -/
structure Consecutive [LinearOrder α] (first last : ι → α) (xs : List ι) : Prop where
  ordered : ∀ x ∈ xs, first x ≤ last x
  chained : xs.IsChain fun a b => last a ⋖ first b

/-- The last position of a list entered at `c`. -/
def reach (last : ι → α) (c : α) (xs : List ι) : α :=
  match xs.getLast? with
  | none => c
  | some x => last x

@[simp] theorem reach_nil (c : α) : reach last c [] = c := rfl

@[simp] theorem reach_concat (c : α) (xs : List ι) (x : ι) : reach last c (xs ++ [x]) = last x := by
  simp [reach]

variable {xs ys : List ι}

theorem reach_append_of_ne_nil (h : ys ≠ []) (c : α) :
    reach last c (xs ++ ys) = reach last c ys := by
  simp [reach, List.getLast?_append_of_ne_nil _ h]

namespace Consecutive

variable [LinearOrder α]

theorem nil : Consecutive first last [] :=
  ⟨fun _ h => absurd h List.not_mem_nil, List.isChain_nil⟩

variable {x : ι}

theorem singleton (h : first x ≤ last x) : Consecutive first last [x] := by
  refine ⟨?_, List.isChain_singleton x⟩
  intro y hy
  rw [List.mem_singleton] at hy
  exact hy ▸ h

theorem of_isInfix (h : Consecutive first last ys) (hsub : xs <:+: ys) :
    Consecutive first last xs :=
  ⟨fun x hx => h.ordered x (hsub.subset hx), List.IsChain.infix h.chained hsub⟩

theorem tail (h : Consecutive first last (x :: xs)) : Consecutive first last xs :=
  h.of_isInfix (List.suffix_cons x xs).isInfix

/-- Two lists are joined where the second begins right after the first ends. -/
theorem append (hxs : Consecutive first last xs) (hys : Consecutive first last ys)
    (hjoin : ∀ x ∈ xs.getLast?, ∀ y ∈ ys.head?, last x ⋖ first y) :
    Consecutive first last (xs ++ ys) := by
  refine ⟨?_, List.isChain_append.mpr ⟨hxs.chained, hys.chained, hjoin⟩⟩
  intro z hz
  cases List.mem_append.mp hz with
  | inl hz => exact hxs.ordered z hz
  | inr hz => exact hys.ordered z hz

/-- Every item ends before every later one begins. -/
theorem pairwise (h : Consecutive first last xs) : xs.Pairwise fun a b => last a < first b := by
  induction xs with
  | nil => exact .nil
  | cons x xs ih =>
    have hrest := ih h.tail
    refine List.pairwise_cons.mpr ⟨?_, hrest⟩
    intro z hz
    cases xs with
    | nil => exact absurd hz List.not_mem_nil
    | cons y ys =>
      have hnext : last x < first y := (List.isChain_cons_cons.mp h.chained).1.lt
      cases List.mem_cons.mp hz with
      | inl hzy => exact hzy ▸ hnext
      | inr hzys =>
        have hy : first y ≤ last y := h.ordered y (by simp)
        have hyz : last y < first z := (List.pairwise_cons.mp hrest).1 z hzys
        exact hnext.trans (hy.trans_lt hyz)

theorem nodup (h : Consecutive first last xs) : xs.Nodup := by
  refine h.pairwise.imp_of_mem ?_
  intro a b ha _ hlt hab
  subst hab
  exact absurd (h.ordered a ha) (not_le.mpr hlt)

/-- Nothing in the list reaches past its end. -/
theorem le_reach (h : Consecutive first last xs) (c : α) (hx : x ∈ xs) :
    last x ≤ reach last c xs := by
  induction xs using List.reverseRecOn with
  | nil => exact absurd hx List.not_mem_nil
  | append_singleton xs y _ =>
    rw [reach_concat]
    cases List.mem_append.mp hx with
    | inl hxs =>
      have hlt : last x < first y :=
        (List.pairwise_append.mp h.pairwise).2.2 x hxs y (by simp)
      exact hlt.le.trans (h.ordered y (by simp))
    | inr hxy => rw [List.mem_singleton.mp hxy]

theorem eq_of_covBy {y z : ι} {pre rest : List ι}
    (h : Consecutive first last (pre ++ x :: z :: rest)) (hy : y ∈ pre ++ x :: z :: rest)
    (hcov : last x ⋖ first y) : y = z := by
  have hpair := List.pairwise_append.mp h.pairwise
  have hx : first x ≤ last x := h.ordered x (by simp)
  have hxz : last x < first z := (List.pairwise_cons.mp hpair.2.1).1 z (by simp)
  cases List.mem_append.mp hy with
  | inl hpre =>
    -- an item before `x` ends before `x` begins
    have hyx : last y < first x := hpair.2.2 y hpre x (by simp)
    have hyy : first y ≤ last y := h.ordered y hy
    exact absurd hcov.lt (not_lt.mpr (hyy.trans (hyx.le.trans hx)))
  | inr hmem =>
    cases List.mem_cons.mp hmem with
    | inl hyx => exact absurd hcov.lt (not_lt.mpr (hyx ▸ hx))
    | inr hmem =>
      cases List.mem_cons.mp hmem with
      | inl hyz => exact hyz
      | inr hrest =>
        -- an item after `z` begins past it
        have hzz : first z ≤ last z := h.ordered z (by simp)
        have hzy : last z < first y :=
          (List.pairwise_cons.mp (List.pairwise_cons.mp hpair.2.1).2).1 y hrest
        exact absurd (hzz.trans_lt hzy) (hcov.2 hxz)

theorem prefix_of_subset {pre rest : List ι} (h : Consecutive first last (pre ++ x :: rest))
    (hxs : Consecutive first last (x :: xs)) (hsub : ∀ y ∈ xs, y ∈ pre ++ x :: rest) :
    x :: xs <+: x :: rest := by
  induction xs generalizing x pre rest with
  | nil => exact List.prefix_append [x] rest
  | cons y ys ih =>
    have hcov : last x ⋖ first y := (List.isChain_cons_cons.mp hxs.chained).1
    have hy : y ∈ pre ++ x :: rest := hsub y (by simp)
    cases rest with
    | nil =>
      -- `x` is the last item, so nothing begins past it
      have hle : last y ≤ reach last (last x) (pre ++ [x]) := h.le_reach (last x) hy
      rw [reach_concat] at hle
      exact absurd hcov.lt (not_lt.mpr ((h.ordered y hy).trans hle))
    | cons z rest =>
      have hyz : y = z := h.eq_of_covBy hy hcov
      subst hyz
      rw [List.append_cons] at h
      refine List.cons_prefix_cons.mpr ⟨rfl, ih h hxs.tail ?_⟩
      intro w hw
      rw [← List.append_cons]
      exact hsub w (List.mem_cons_of_mem y hw)

/-- Consecutive ranges taken from a list of consecutive ranges are contiguous in it. -/
theorem infix_of_subset (h : Consecutive first last ys) (hxs : Consecutive first last xs)
    (hsub : ∀ x ∈ xs, x ∈ ys) : xs <:+: ys := by
  cases xs with
  | nil => exact List.nil_infix
  | cons x xs =>
    obtain ⟨pre, rest, hys⟩ := List.append_of_mem (hsub x (by simp))
    subst hys
    have hpre : x :: xs <+: x :: rest :=
      h.prefix_of_subset hxs fun y hy => hsub y (List.mem_cons_of_mem x hy)
    exact hpre.isInfix.trans (List.suffix_append pre (x :: rest)).isInfix

section

variable (h : Consecutive first last xs)
include h

/-- What is kept with every item before it is a first part of the list. -/
theorem filter_isPrefix {p : ι → Bool}
    (hdown : ∀ x ∈ xs, ∀ y ∈ xs, last x < first y → p y = true → p x = true) :
    xs.filter p <+: xs := by
  induction xs with
  | nil => exact List.prefix_refl []
  | cons x xs ih =>
    have hrest : ∀ a ∈ xs, ∀ b ∈ xs, last a < first b → p b = true → p a = true :=
      fun a ha b hb => hdown a (List.mem_cons_of_mem x ha) b (List.mem_cons_of_mem x hb)
    by_cases hx : p x = true
    · rw [List.filter_cons_of_pos hx]
      exact List.cons_prefix_cons.mpr ⟨rfl, ih h.tail hrest⟩
    · rw [List.filter_cons_of_neg hx, List.filter_eq_nil_iff.mpr]
      · exact List.nil_prefix
      · intro y hy hpy
        have hxy : last x < first y := (List.pairwise_cons.mp h.pairwise).1 y hy
        exact hx (hdown x (by simp) y (by simp [hy]) hxy hpy)

/-- The items that begin before a position are a first part of the list. -/
theorem filter_lt_isPrefix (c : α) :
    xs.filter (fun x => first x < c) <+: xs := by
  refine h.filter_isPrefix ?_
  intro x hx y _ hxy hy
  rw [decide_eq_true_eq] at hy ⊢
  exact (h.ordered x hx).trans_lt (hxy.trans hy)

/-- Two items of the list are the same, or one ends before the other begins. -/
theorem compare {y : ι} (hx : x ∈ xs) (hy : y ∈ xs) :
    x = y ∨ last x < first y ∨ last y < first x := by
  obtain ⟨pre, rest, hxs⟩ := List.append_of_mem hx
  subst hxs
  have hpair := List.pairwise_append.mp h.pairwise
  cases List.mem_append.mp hy with
  | inl hpre => exact .inr (.inr (hpair.2.2 y hpre x (by simp)))
  | inr hmem =>
    cases List.mem_cons.mp hmem with
    | inl hyx => exact .inl hyx.symm
    | inr hrest => exact .inr (.inl ((List.pairwise_cons.mp hpair.2.1).1 y hrest))

/-- An item that comes after another comes right after it, or after one in between. -/
theorem covBy_or_between {y : ι} (hx : x ∈ xs) (hy : y ∈ xs)
    (hxy : last x < first y) :
    last x ⋖ first y ∨ ∃ z ∈ xs, last x < first z ∧ last z < first y := by
  obtain ⟨pre, rest, hxs⟩ := List.append_of_mem hx
  subst hxs
  have hpair := List.pairwise_append.mp h.pairwise
  have hrest : y ∈ rest := by
    cases List.mem_append.mp hy with
    | inl hpre =>
      have hyx : last y < first x := hpair.2.2 y hpre x (by simp)
      have hle := (h.ordered y hy).trans (hyx.le.trans (h.ordered x hx))
      exact absurd hxy (not_lt.mpr hle)
    | inr hmem =>
      cases List.mem_cons.mp hmem with
      | inl hyx => exact absurd hxy (not_lt.mpr (hyx ▸ h.ordered x hx))
      | inr hrest => exact hrest
  cases rest with
  | nil => exact absurd hrest List.not_mem_nil
  | cons z rest =>
    have htail := h.of_isInfix (List.suffix_append pre (x :: z :: rest)).isInfix
    have hcov : last x ⋖ first z := (List.isChain_cons_cons.mp htail.chained).1
    cases List.mem_cons.mp hrest with
    | inl hyz => exact .inl (hyz ▸ hcov)
    | inr hlater =>
      have hzy : last z < first y := (List.pairwise_cons.mp htail.tail.pairwise).1 y hlater
      exact .inr ⟨z, by simp, hcov.lt, hzy⟩

theorem head_le {y : ι} (hx : x ∈ xs.head?) (hy : y ∈ xs) :
    first x ≤ first y := by
  cases xs with
  | nil => exact absurd hy List.not_mem_nil
  | cons z zs =>
    cases hx
    cases List.mem_cons.mp hy with
    | inl hyz => exact hyz ▸ le_refl _
    | inr hrest =>
      have hlt : last x < first y := (List.pairwise_cons.mp h.pairwise).1 y hrest
      exact (h.ordered x (by simp)).trans hlt.le

end

end Consecutive

end TianmaCoder
