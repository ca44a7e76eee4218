import Mathlib.Data.List.Basic
import Mathlib.Data.List.Nodup

/-!
# Insertion-ordered maps

An association list read as a map that remembers the order in which its keys were first
inserted: overwriting a key keeps its position, deleting it forgets the position. Both
operations keep the keys distinct, so a lookup and a walk over the entries agree.
-/

namespace TianmaCoder

/-- A map that iterates in insertion order. -/
abbrev OrderedMap (κ ν : Type*) := List (κ × ν)

namespace OrderedMap

variable {κ ν : Type*}

/-- The keys, in insertion order. -/
def keys (m : OrderedMap κ ν) : List κ := m.map Prod.fst

@[simp] theorem keys_nil : keys ([] : OrderedMap κ ν) = [] := rfl
@[simp] theorem keys_cons (k : κ) (v : ν) (m : OrderedMap κ ν) :
    keys ((k, v) :: m) = k :: keys m := rfl

variable [DecidableEq κ]

/-- Overwrite the entry of `k` in place, or append a new one. -/
def set (k : κ) (v : ν) : OrderedMap κ ν → OrderedMap κ ν
  | [] => [(k, v)]
  | (l, w) :: m => if l = k then (k, v) :: m else (l, w) :: set k v m

/-- Remove the entry of `k`. -/
def delete (k : κ) (m : OrderedMap κ ν) : OrderedMap κ ν := m.filter fun e => e.1 ≠ k

/-- Replace the entries that an update gives a value, and remove those that it gives none. -/
def update (updates : OrderedMap κ (Option ν)) (m : OrderedMap κ ν) : OrderedMap κ ν :=
  (m.filter fun e => e.1 ∉ keys updates) ++
    updates.filterMap fun e => e.2.map fun v => (e.1, v)

theorem lookup_cons_ite (k l : κ) (v : ν) (m : OrderedMap κ ν) :
    List.lookup l ((k, v) :: m) = if l = k then some v else m.lookup l := by
  by_cases h : l = k
  · simp [h]
  · have hbeq : (l == k) = false := by simpa using h
    simp [List.lookup_cons, hbeq, h]

/-- Reading a map after one key was set. -/
theorem lookup_set (k l : κ) (v : ν) (m : OrderedMap κ ν) :
    (set k v m).lookup l = if l = k then some v else m.lookup l := by
  induction m with
  | nil => simp [set, lookup_cons_ite]
  | cons e m ih =>
    obtain ⟨e, w⟩ := e
    by_cases he : e = k
    · subst e
      by_cases hl : l = k <;> simp [set, lookup_cons_ite, hl]
    · by_cases hl : l = e
      · subst l
        simp [set, he]
      · simp [set, he, hl, ih, lookup_cons_ite]

/-- The last of two settings of a key stays. -/
theorem set_set (k : κ) (v w : ν) (m : OrderedMap κ ν) : set k w (set k v m) = set k w m := by
  induction m with
  | nil => simp [set]
  | cons e m ih =>
    by_cases he : e.1 = k
    · simp [set, he]
    · simp [set, he, ih]

theorem lookup_delete (k l : κ) (m : OrderedMap κ ν) :
    (delete k m).lookup l = if l = k then none else m.lookup l := by
  induction m with
  | nil => simp [delete]
  | cons e m ih =>
    obtain ⟨e, w⟩ := e
    by_cases he : e = k
    · have hd : delete k ((e, w) :: m) = delete k m := by simp [delete, he]
      rw [hd, ih, lookup_cons_ite]
      by_cases hl : l = k <;> simp [hl, he]
    · have hd : delete k ((e, w) :: m) = (e, w) :: delete k m := by simp [delete, he]
      rw [hd, lookup_cons_ite, lookup_cons_ite, ih]
      by_cases hl : l = e
      · simp [hl, he]
      · simp [hl]

theorem delete_set (k : κ) (v : ν) (m : OrderedMap κ ν) : delete k (set k v m) = delete k m := by
  induction m with
  | nil => simp [set, delete]
  | cons e m ih =>
    obtain ⟨l, w⟩ := e
    by_cases hl : l = k
    · simp [set, delete, hl]
    · unfold delete at ih
      simpa [set, delete, hl] using ih

variable {m : OrderedMap κ ν}

/-- An entry of a map after one key was set is the new one or an old one. -/
theorem mem_set {k : κ} {v : ν} {e : κ × ν} (h : e ∈ set k v m) : e = (k, v) ∨ e ∈ m := by
  induction m with
  | nil => exact .inl (List.mem_singleton.mp h)
  | cons f m ih =>
    obtain ⟨l, w⟩ := f
    unfold set at h
    split at h
    · rcases List.mem_cons.mp h with h | h
      · exact .inl h
      · exact .inr (List.mem_cons_of_mem _ h)
    · rcases List.mem_cons.mp h with h | h
      · exact .inr (List.mem_cons.mpr (.inl h))
      · exact (ih h).imp_right (List.mem_cons_of_mem _)

theorem mem_of_lookup {k : κ} {v : ν} (h : m.lookup k = some v) : (k, v) ∈ m := by
  induction m with
  | nil => cases h
  | cons e m ih =>
    obtain ⟨l, w⟩ := e
    rw [lookup_cons_ite] at h
    by_cases hl : k = l
    · simp only [hl, if_true, Option.some.injEq] at h
      simp [hl, h]
    · simp only [hl, if_false] at h
      exact List.mem_cons_of_mem _ (ih h)

theorem keys_set (k : κ) (v : ν) (m : OrderedMap κ ν) :
    keys (set k v m) = if k ∈ keys m then keys m else keys m ++ [k] := by
  induction m with
  | nil => simp [set]
  | cons e m ih =>
    obtain ⟨e, w⟩ := e
    by_cases he : e = k
    · subst e
      simp [set]
    · have hne : k ≠ e := fun h => he h.symm
      by_cases hk : k ∈ keys m <;> simp [set, he, hne, ih, hk]

theorem keys_delete (k : κ) (m : OrderedMap κ ν) :
    keys (delete k m) = (keys m).filter fun l => l ≠ k := by
  simp only [keys, delete, List.filter_map]
  rfl

theorem mem_keys_iff (k : κ) (m : OrderedMap κ ν) : k ∈ keys m ↔ (m.lookup k).isSome := by
  induction m with
  | nil => simp
  | cons e m ih =>
    obtain ⟨e, w⟩ := e
    rw [keys_cons, List.mem_cons, lookup_cons_ite, ih]
    by_cases h : k = e <;> simp [h]

theorem lookup_eq_none {k : κ} (h : k ∉ keys m) : m.lookup k = none :=
  Option.not_isSome_iff_eq_none.mp (mt (mem_keys_iff k m).mpr h)

theorem nodup_keys_set (h : (keys m).Nodup) (k : κ) (v : ν) : (keys (set k v m)).Nodup := by
  rw [keys_set]
  split
  · exact h
  · rename_i hk
    exact List.Nodup.append h (List.nodup_singleton k) (by simpa using hk)

theorem nodup_keys_delete (h : (keys m).Nodup) (k : κ) : (keys (delete k m)).Nodup := by
  rw [keys_delete]
  exact h.filter _

theorem set_of_not_mem {k : κ} (h : k ∉ keys m) (v : ν) : set k v m = m ++ [(k, v)] := by
  induction m with
  | nil => rfl
  | cons e m ih =>
    obtain ⟨l, w⟩ := e
    rw [keys_cons, List.mem_cons, not_or] at h
    rw [set, if_neg (Ne.symm h.1), ih h.2, List.cons_append]

theorem foldl_set (key : ν → κ) {acc : OrderedMap κ ν} (hkey : ∀ e ∈ m, key e.2 = e.1)
    (hnodup : (keys (acc ++ m)).Nodup) :
    (m.map Prod.snd).foldl (fun m v => set (key v) v m) acc = acc ++ m := by
  induction m generalizing acc with
  | nil => exact (List.append_nil acc).symm
  | cons e m ih =>
    have he : key e.2 = e.1 := hkey e List.mem_cons_self
    have hfresh : e.1 ∉ keys acc := by
      rw [keys, List.map_append, List.nodup_append] at hnodup
      intro hmem
      exact hnodup.2.2 e.1 hmem e.1 (by simp) rfl
    have happend : acc ++ e :: m = (acc ++ [e]) ++ m := by simp
    rw [List.map_cons, List.foldl_cons, he, set_of_not_mem hfresh, happend]
    rw [happend] at hnodup
    exact ih (fun e' he' => hkey e' (List.mem_cons_of_mem e he')) hnodup

theorem mem_iff_lookup (h : (keys m).Nodup) (k : κ) (v : ν) : (k, v) ∈ m ↔ m.lookup k = some v := by
  induction m with
  | nil => simp
  | cons e m ih =>
    obtain ⟨e, w⟩ := e
    obtain ⟨hne, hm⟩ := List.nodup_cons.mp h
    rw [lookup_cons_ite, List.mem_cons, ih hm]
    by_cases hk : k = e
    · subst k
      simp [lookup_eq_none hne, eq_comm]
    · simp [hk]

/-- A loop that writes the entries of a map one by one writes each key once. -/
theorem foldl_entries {σ β : Type*} {f : σ → κ → β} {put : σ → κ × ν → σ} {g : ν → β → β}
    (hput : ∀ s e k, f (put s e) k = if k = e.1 then g e.2 (f s k) else f s k)
    (hnodup : (keys m).Nodup) (s : σ) (k : κ) :
    f (m.foldl put s) k =
      match m.lookup k with
      | some v => g v (f s k)
      | none => f s k := by
  induction m generalizing s with
  | nil => rfl
  | cons e m ih =>
    obtain ⟨l, v⟩ := e
    obtain ⟨hl, hm⟩ := List.nodup_cons.mp hnodup
    rw [List.foldl_cons, ih hm, hput, lookup_cons_ite]
    by_cases hk : k = l
    · subst hk
      simp [lookup_eq_none hl]
    · simp [hk]

theorem lookup_filter (h : (keys m).Nodup) (p : κ × ν → Bool) (k : κ) :
    (m.filter p).lookup k = (m.lookup k).filter fun v => p (k, v) := by
  induction m with
  | nil => rfl
  | cons e m ih =>
    obtain ⟨l, w⟩ := e
    obtain ⟨hl, hm⟩ := List.nodup_cons.mp h
    have hrest : k = l → m.lookup k = none := by
      rintro rfl
      exact lookup_eq_none hl
    by_cases hp : p (l, w) = true
    · rw [List.filter_cons_of_pos hp, lookup_cons_ite, lookup_cons_ite, ih hm]
      by_cases hk : k = l
      · subst hk
        simp [Option.filter, hp]
      · simp [hk]
    · rw [List.filter_cons_of_neg hp, ih hm, lookup_cons_ite]
      by_cases hk : k = l
      · subst hk
        simp [hrest rfl, Option.filter, hp]
      · simp [hk]

omit [DecidableEq κ] in
theorem nodup_keys_filter (h : (keys m).Nodup) (p : κ × ν → Bool) : (keys (m.filter p)).Nodup :=
  List.Nodup.sublist (List.filter_sublist.map Prod.fst) h

end OrderedMap

end TianmaCoder
