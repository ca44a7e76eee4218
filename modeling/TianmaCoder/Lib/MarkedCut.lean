import Mathlib.Data.List.Basic
import Mathlib.Data.Nat.Notation

/-!
# Cutting the middle out of mixed content

A sequence of letters with other items in between. Only letters are counted: a span of
positions is cut out of the letters, and the other items stay where they are among the letters
that are kept.

## Main definitions

* `letters` — the letters of a sequence.
* `outside` — the sequence without the letters of a span.
* `MarkedCut` — the sequence without a span, with a mark where the span was.

## Main results

* `letters_outside` — what is left of the letters.
* `MarkedCut.letters_eq` — the letters around the mark.
-/

namespace TianmaCoder

variable {α β : Type*}

/-- The letters, in order. -/
def letters (items : List (α ⊕ β)) : List α := items.filterMap Sum.getLeft?

/-- The items that are no letters, in order. -/
def others (items : List (α ⊕ β)) : List β := items.filterMap Sum.getRight?

/-- The sequence without the letters at the positions from `start` to `stop`; `p` letters came
before it. -/
def outside (start stop p : ℕ) : List (α ⊕ β) → List (α ⊕ β)
  | [] => []
  | .inr item :: rest => .inr item :: outside start stop p rest
  | .inl c :: rest =>
    if p < start ∨ stop ≤ p then .inl c :: outside start stop (p + 1) rest
    else outside start stop (p + 1) rest

/-- The result has the mark in place of the letters of a span: right after the letters before
the span, and nothing else is moved or lost. -/
structure MarkedCut (start stop : ℕ) (mark : List α) (items result : List (α ⊕ β)) : Prop where
  around : ∃ before after, result = before ++ mark.map Sum.inl ++ after ∧
    outside start stop 0 items = before ++ after ∧
    letters before = (letters items).take start

@[simp] theorem letters_nil : letters ([] : List (α ⊕ β)) = [] := rfl
@[simp] theorem letters_append (xs ys : List (α ⊕ β)) :
    letters (xs ++ ys) = letters xs ++ letters ys := List.filterMap_append
@[simp] theorem letters_inl (c : α) (xs : List (α ⊕ β)) :
    letters (.inl c :: xs) = c :: letters xs := rfl
@[simp] theorem letters_inr (item : β) (xs : List (α ⊕ β)) :
    letters (.inr item :: xs) = letters xs := rfl
@[simp] theorem letters_map_inl (cs : List α) : letters (cs.map (Sum.inl : α → α ⊕ β)) = cs := by
  induction cs with
  | nil => rfl
  | cons c cs ih => rw [List.map_cons, letters_inl, ih]

@[simp] theorem others_nil : others ([] : List (α ⊕ β)) = [] := rfl
@[simp] theorem others_append (xs ys : List (α ⊕ β)) :
    others (xs ++ ys) = others xs ++ others ys := List.filterMap_append
@[simp] theorem others_inl (c : α) (xs : List (α ⊕ β)) : others (.inl c :: xs) = others xs := rfl
@[simp] theorem others_inr (item : β) (xs : List (α ⊕ β)) :
    others (.inr item :: xs) = item :: others xs := rfl
@[simp] theorem others_map_inl (cs : List α) : others (cs.map (Sum.inl : α → α ⊕ β)) = [] := by
  induction cs with
  | nil => rfl
  | cons c cs ih => rw [List.map_cons, others_inl, ih]

variable {start stop : ℕ}

theorem outside_append (p : ℕ) (xs ys : List (α ⊕ β)) :
    outside start stop p (xs ++ ys) =
      outside start stop p xs ++ outside start stop (p + (letters xs).length) ys := by
  induction xs generalizing p with
  | nil => rfl
  | cons item xs ih =>
    cases item with
    | inr item => simp [outside, ih]
    | inl c =>
      have hp : p + 1 + (letters xs).length = p + ((letters xs).length + 1) := by omega
      by_cases h : p < start ∨ stop ≤ p
      · simp [outside, h, ih, hp]
      · simp [outside, h, ih, hp]

/-- Nothing is cut out of what comes before the span. -/
theorem outside_of_le (p : ℕ) (xs : List (α ⊕ β)) (h : p + (letters xs).length ≤ start) :
    outside start stop p xs = xs := by
  induction xs generalizing p with
  | nil => rfl
  | cons item xs ih =>
    cases item with
    | inr item => rw [outside, ih p h]
    | inl c =>
      rw [letters_inl, List.length_cons] at h
      have hp : p < start := by omega
      rw [outside, if_pos (.inl hp), ih (p + 1) (by omega)]

variable (start stop) in
/-- A cut leaves every item that is no letter. -/
theorem others_outside (p : ℕ) (xs : List (α ⊕ β)) :
    others (outside start stop p xs) = others xs := by
  induction xs generalizing p with
  | nil => rfl
  | cons item xs ih =>
    cases item with
    | inr item => simp [outside, ih]
    | inl c =>
      by_cases h : p < start ∨ stop ≤ p
      · simp [outside, h, ih]
      · simp [outside, h, ih]

theorem letters_outside (h : start ≤ stop) (p : ℕ) (xs : List (α ⊕ β)) :
    letters (outside start stop p xs) =
      (letters xs).take (start - p) ++ (letters xs).drop (stop - p) := by
  induction xs generalizing p with
  | nil => simp [outside]
  | cons item xs ih =>
    cases item with
    | inr item => simp [outside, ih]
    | inl c =>
      by_cases hbefore : p < start
      · have hstart : start - p = start - (p + 1) + 1 := by omega
        have hstop : stop - p = stop - (p + 1) + 1 := by omega
        simp [outside, hbefore, ih, hstart, hstop]
      · have hstart : start - p = 0 := by omega
        have hstart' : start - (p + 1) = 0 := by omega
        by_cases hafter : stop ≤ p
        · have hstop : stop - p = 0 := by omega
          have hstop' : stop - (p + 1) = 0 := by omega
          simp [outside, hafter, ih, hstart, hstart', hstop, hstop']
        · have hstop : stop - p = stop - (p + 1) + 1 := by omega
          simp [outside, hbefore, hafter, ih, hstart, hstart', hstop]

/-- A sequence without other items is its letters. -/
theorem eq_map_inl {xs : List (α ⊕ β)} (h : others xs = []) : xs = (letters xs).map Sum.inl := by
  induction xs with
  | nil => rfl
  | cons item xs ih =>
    cases item with
    | inr item => simp at h
    | inl c => rw [letters_inl, List.map_cons, ← ih (by simpa using h)]

/-- What a cut leaves of a stretch of letters. -/
theorem outside_map_inl (h : start ≤ stop) (p : ℕ) (cs : List α) :
    outside start stop p (cs.map (Sum.inl : α → α ⊕ β)) =
      (cs.take (start - p) ++ cs.drop (stop - p)).map Sum.inl := by
  have hothers := others_outside start stop p (cs.map (Sum.inl : α → α ⊕ β))
  rw [others_map_inl] at hothers
  have hletters := letters_outside h p (cs.map (Sum.inl : α → α ⊕ β))
  rw [letters_map_inl] at hletters
  rw [eq_map_inl hothers, hletters]

namespace MarkedCut

variable {mark : List α} {items result : List (α ⊕ β)}

theorem letters_eq (h : MarkedCut start stop mark items result) (hspan : start ≤ stop) :
    letters result = (letters items).take start ++ mark ++ (letters items).drop stop := by
  obtain ⟨before, after, hresult, hkept, hbefore⟩ := h.around
  have hletters := letters_outside hspan 0 items
  rw [hkept, letters_append, hbefore, Nat.sub_zero, Nat.sub_zero] at hletters
  have hafter : letters after = (letters items).drop stop := List.append_cancel_left hletters
  rw [hresult, letters_append, letters_append, letters_map_inl, hbefore, hafter]

theorem others_eq (h : MarkedCut start stop mark items result) : others result = others items := by
  obtain ⟨before, after, hresult, hkept, _⟩ := h.around
  have hothers := others_outside start stop 0 items
  rw [hkept, others_append] at hothers
  rw [hresult, others_append, others_append, others_map_inl, List.append_nil, hothers]

end MarkedCut

end TianmaCoder
