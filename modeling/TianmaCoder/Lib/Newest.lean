import Mathlib.Data.List.Basic
import Mathlib.Data.List.Induction
import Mathlib.Order.Basic
import Mathlib.Order.Lattice

/-!
# The newest of some stamped words

Words that carry a stamp arrive in any order. The newest is the one with the greatest stamp; where
words of one stamp are one word, it does not depend on the order.

## Main definitions

* `newest` — the word with the greatest stamp.
* `StampsAgree` — words of one stamp are one word.

## Main results

* `newest_eq_some_iff` — the newest word among agreeing ones.
-/

namespace TianmaCoder

variable {S A : Type*} [LinearOrder S]

/-- The newer of a word and the next; of two with one stamp, the first. -/
def newer : Option (S × A) → S × A → Option (S × A)
  | none, word => some word
  | some kept, word => if kept.1 < word.1 then some word else some kept

/-- The word with the greatest stamp. -/
def newest (words : List (S × A)) : Option (S × A) := words.foldl newer none

/-- Words of one stamp are one word. -/
def StampsAgree (words : List (S × A)) : Prop :=
  ∀ u ∈ words, ∀ w ∈ words, u.1 = w.1 → u = w

@[simp] theorem newest_nil : newest ([] : List (S × A)) = none := rfl

theorem newest_snoc (words : List (S × A)) (word : S × A) :
    newest (words ++ [word]) = newer (newest words) word := by
  simp [newest]

theorem newest_eq_none_iff {words : List (S × A)} : newest words = none ↔ words = [] := by
  constructor
  · intro h
    cases words using List.reverseRecOn with
    | nil => rfl
    | append_singleton words last =>
      rw [newest_snoc] at h
      unfold newer at h
      split at h
      · cases h
      · split at h <;> cases h
  · rintro rfl
    rfl

/-- The newest word is one of the words, and none is newer. -/
theorem newest_spec {words : List (S × A)} {word : S × A} (h : newest words = some word) :
    word ∈ words ∧ ∀ u ∈ words, u.1 ≤ word.1 := by
  induction words using List.reverseRecOn generalizing word with
  | nil => cases h
  | append_singleton words last ih =>
    rw [newest_snoc] at h
    cases hnewest : newest words with
    | none =>
      have hnil : words = [] := newest_eq_none_iff.mp hnewest
      subst hnil
      cases h
      simp
    | some kept =>
      rw [hnewest] at h
      obtain ⟨hmem, hle⟩ := ih hnewest
      simp only [newer] at h
      by_cases hlt : kept.1 < last.1
      · rw [if_pos hlt] at h
        cases h
        refine ⟨by simp, ?_⟩
        intro u hu
        rcases List.mem_append.mp hu with hu | hu
        · exact (hle u hu).trans hlt.le
        · rw [List.mem_singleton.mp hu]
      · rw [if_neg hlt] at h
        cases h
        refine ⟨by simp [hmem], ?_⟩
        intro u hu
        rcases List.mem_append.mp hu with hu | hu
        · exact hle u hu
        · rw [List.mem_singleton.mp hu]
          exact not_lt.mp hlt

theorem newest_eq_some_iff {words : List (S × A)} (hagree : StampsAgree words) {word : S × A} :
    newest words = some word ↔ word ∈ words ∧ ∀ u ∈ words, u.1 ≤ word.1 := by
  constructor
  · exact newest_spec
  · rintro ⟨hmem, hle⟩
    cases hnewest : newest words with
    | none =>
      rw [newest_eq_none_iff.mp hnewest] at hmem
      cases hmem
    | some kept =>
      obtain ⟨hkept, hkeptle⟩ := newest_spec hnewest
      have hsame : kept.1 = word.1 := le_antisymm (hle kept hkept) (hkeptle word hmem)
      rw [hagree kept hkept word hmem hsame]

end TianmaCoder
