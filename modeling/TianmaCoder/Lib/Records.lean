import Mathlib.Data.List.Basic
import Mathlib.Data.Nat.Notation

/-!
# Records that end with a separator

A stream is cut after each separator into complete records, and what follows the last one is a
torn tail. The cut of a stream that arrives in two parts is the cut of the first part, followed
by the cut of its tail with the second part.

## Main definitions

* `Records.join` — the stream of a list of records.
* `Records.complete`, `Records.tail` — the records and the torn tail.

## Main results

* `Records.complete_append`, `Records.tail_append`, `Records.join_complete`.
-/

namespace TianmaCoder

namespace Records

variable {α : Type*}

/-- The stream of the records, each with its separator. -/
def join (sep : α) (records : List (List α)) : List α := records.flatMap fun line => line ++ [sep]

@[simp] theorem join_nil (sep : α) : join sep [] = [] := rfl

theorem join_cons (sep : α) (line : List α) (records : List (List α)) :
    join sep (line :: records) = line ++ sep :: join sep records := by
  simp [join]

theorem join_append (sep : α) (xs ys : List (List α)) : join sep (xs ++ ys) = join sep xs ++ join sep ys :=
  List.flatMap_append

variable [DecidableEq α] (sep : α)

/-- The complete records, without their separators. -/
def complete : List α → List (List α)
  | [] => []
  | x :: xs =>
    if x = sep then [] :: complete xs
    else
      match complete xs with
      | [] => []
      | first :: rest => (x :: first) :: rest

/-- What follows the last separator. -/
def tail : List α → List α
  | [] => []
  | x :: xs =>
    if x = sep then tail xs
    else
      match complete sep xs with
      | [] => x :: tail xs
      | _ :: _ => tail xs

variable {sep}

theorem complete_of_not_mem {xs : List α} (h : sep ∉ xs) : complete sep xs = [] := by
  induction xs with
  | nil => rfl
  | cons x xs ih =>
    have hx : x ≠ sep := fun heq => h (by simp [heq])
    rw [complete, if_neg hx, ih fun hmem => h (List.mem_cons_of_mem x hmem)]

theorem tail_of_not_mem {xs : List α} (h : sep ∉ xs) : tail sep xs = xs := by
  induction xs with
  | nil => rfl
  | cons x xs ih =>
    have hx : x ≠ sep := fun heq => h (by simp [heq])
    have hxs : sep ∉ xs := fun hmem => h (List.mem_cons_of_mem x hmem)
    rw [tail, if_neg hx, complete_of_not_mem hxs, ih hxs]

/-- The first separator ends the first record. -/
theorem complete_record {line : List α} (h : sep ∉ line) (rest : List α) :
    complete sep (line ++ sep :: rest) = line :: complete sep rest := by
  induction line with
  | nil => rw [List.nil_append, complete, if_pos rfl]
  | cons x xs ih =>
    have hx : x ≠ sep := fun heq => h (by simp [heq])
    rw [List.cons_append, complete, if_neg hx, ih fun hmem => h (List.mem_cons_of_mem x hmem)]

theorem tail_record {line : List α} (h : sep ∉ line) (rest : List α) :
    tail sep (line ++ sep :: rest) = tail sep rest := by
  induction line with
  | nil => rw [List.nil_append, tail, if_pos rfl]
  | cons x xs ih =>
    have hx : x ≠ sep := fun heq => h (by simp [heq])
    have hxs : sep ∉ xs := fun hmem => h (List.mem_cons_of_mem x hmem)
    rw [List.cons_append, tail, if_neg hx, complete_record hxs]
    exact ih hxs

variable (sep) in
theorem cases_record (xs : List α) :
    sep ∉ xs ∨ ∃ line rest, xs = line ++ sep :: rest ∧ sep ∉ line := by
  induction xs with
  | nil => exact .inl List.not_mem_nil
  | cons x xs ih =>
    by_cases hx : x = sep
    · exact .inr ⟨[], xs, by rw [hx, List.nil_append], List.not_mem_nil⟩
    · cases ih with
      | inl hnot =>
        refine .inl fun hmem => ?_
        cases List.mem_cons.mp hmem with
        | inl heq => exact hx heq.symm
        | inr hin => exact hnot hin
      | inr hrecord =>
        obtain ⟨line, rest, hxs, hline⟩ := hrecord
        refine .inr ⟨x :: line, rest, by rw [hxs, List.cons_append], fun hmem => ?_⟩
        cases List.mem_cons.mp hmem with
        | inl heq => exact hx heq.symm
        | inr hin => exact hline hin

/-- A part that arrives later is cut together with the tail of the part before it. -/
theorem append_cut (xs ys : List α) :
    complete sep (xs ++ ys) = complete sep xs ++ complete sep (tail sep xs ++ ys) ∧
      tail sep (xs ++ ys) = tail sep (tail sep xs ++ ys) := by
  induction hn : xs.length using Nat.strongRecOn generalizing xs with
  | _ n ih =>
    cases cases_record sep xs with
    | inl hnot =>
      rw [complete_of_not_mem hnot, tail_of_not_mem hnot, List.nil_append]
      exact ⟨rfl, rfl⟩
    | inr hrecord =>
      obtain ⟨line, rest, hxs, hline⟩ := hrecord
      have hlt : rest.length < n := by
        rw [← hn, hxs, List.length_append, List.length_cons]
        omega
      have ⟨hcomplete, htail⟩ := ih rest.length hlt rest rfl
      rw [hxs, List.append_assoc, List.cons_append, complete_record hline, tail_record hline,
        complete_record hline, tail_record hline, List.cons_append, hcomplete, htail]
      exact ⟨rfl, rfl⟩

theorem complete_append (xs ys : List α) :
    complete sep (xs ++ ys) = complete sep xs ++ complete sep (tail sep xs ++ ys) :=
  (append_cut xs ys).1

theorem tail_append (xs ys : List α) : tail sep (xs ++ ys) = tail sep (tail sep xs ++ ys) :=
  (append_cut xs ys).2

variable (sep) in
theorem join_complete (xs : List α) : join sep (complete sep xs) ++ tail sep xs = xs := by
  induction hn : xs.length using Nat.strongRecOn generalizing xs with
  | _ n ih =>
    cases cases_record sep xs with
    | inl hnot =>
      rw [complete_of_not_mem hnot, tail_of_not_mem hnot]
      rfl
    | inr hrecord =>
      obtain ⟨line, rest, hxs, hline⟩ := hrecord
      have hlt : rest.length < n := by
        rw [← hn, hxs, List.length_append, List.length_cons]
        omega
      rw [hxs, complete_record hline, tail_record hline, join_cons, List.append_assoc,
        List.cons_append, ih rest.length hlt rest rfl]

theorem not_mem_of_mem_complete {xs line : List α} (h : line ∈ complete sep xs) : sep ∉ line := by
  induction hn : xs.length using Nat.strongRecOn generalizing xs with
  | _ n ih =>
    cases cases_record sep xs with
    | inl hnot =>
      rw [complete_of_not_mem hnot] at h
      cases h
    | inr hrecord =>
      obtain ⟨first, rest, hxs, hfirst⟩ := hrecord
      have hlt : rest.length < n := by
        rw [← hn, hxs, List.length_append, List.length_cons]
        omega
      rw [hxs, complete_record hfirst] at h
      cases List.mem_cons.mp h with
      | inl heq => exact heq ▸ hfirst
      | inr hin => exact ih rest.length hlt hin rfl

/-- Records without the separator are cut out of their stream again. -/
theorem complete_join {records : List (List α)} (h : ∀ line ∈ records, sep ∉ line) :
    complete sep (join sep records) = records := by
  induction records with
  | nil => rfl
  | cons line rest ih =>
    rw [join_cons, complete_record (h line List.mem_cons_self),
      ih fun other hother => h other (List.mem_cons_of_mem line hother)]

end Records

end TianmaCoder
