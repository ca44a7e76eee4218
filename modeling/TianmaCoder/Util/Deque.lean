import Mathlib.Algebra.GroupWithZero.Nat
import TianmaCoder.Lib.Machine

/-!
# The circular deque

A buffer of cells whose live entries start at `head` and wrap around its end. The buffer doubles
when it is full and halves when three quarters of it are free. A cell without an entry holds
`undefined`, and so may an entry; both are `none` here.

## Main definitions

* `Deque` and its operations.
* `Deque.Holds` — the deque represents a list of entries, front first.
* `Deque.machine`, `Deque.listMachine` — the deque and the plain list under the same operations.

## Main results

* `Deque.Holds.pushBack`, `Deque.Holds.pushFront`, `Deque.Holds.popFront_cons` — the operations
  are those of the list.
* `Deque.deque_refines_list` — every sequence of operations is answered as the list answers it.
-/

namespace TianmaCoder

structure Deque (α : Type) where
  buffer : List (Option α)
  head : ℕ
  count : ℕ
deriving DecidableEq

namespace Deque

variable {α : Type}

def minCapacity : ℕ := 16

def empty : Deque α := ⟨List.replicate minCapacity none, 0, 0⟩

/-- The cell of the `k`-th entry. -/
def slot (d : Deque α) (k : ℕ) : ℕ :=
  if d.head + k < d.buffer.length then d.head + k else d.head + k - d.buffer.length

/-- The cells read by the copy loop of `resize`, from `source` on. -/
def copied (d : Deque α) : ℕ → ℕ → List (Option α)
  | 0, _ => []
  | n + 1, source =>
    (d.buffer[source]?).join :: d.copied n (if source + 1 = d.buffer.length then 0 else source + 1)

def resize (d : Deque α) (capacity : ℕ) : Deque α :=
  ⟨d.copied d.count d.head ++ List.replicate (capacity - d.count) none, 0, d.count⟩

def ensureCapacity (d : Deque α) : Deque α :=
  if d.count < d.buffer.length then d else d.resize (d.buffer.length * 2)

def compact (d : Deque α) : Deque α :=
  if d.count = 0 then { d with head := 0 }
  else if minCapacity < d.buffer.length ∧ 4 * d.count ≤ d.buffer.length then
    d.resize (max minCapacity (d.buffer.length / 2))
  else d

def pushBack (d : Deque α) (value : Option α) : Deque α :=
  let e := d.ensureCapacity
  { e with buffer := e.buffer.set (e.slot e.count) value, count := e.count + 1 }

def pushFront (d : Deque α) (value : Option α) : Deque α :=
  let e := d.ensureCapacity
  let head := if e.head = 0 then e.buffer.length - 1 else e.head - 1
  ⟨e.buffer.set head value, head, e.count + 1⟩

def popFront (d : Deque α) : Option α × Deque α :=
  if d.count = 0 then (none, d)
  else
    let head := if d.head + 1 = d.buffer.length then 0 else d.head + 1
    ((d.buffer[d.head]?).join, compact ⟨d.buffer.set d.head none, head, d.count - 1⟩)

def clear (_ : Deque α) : Deque α := empty

def size (d : Deque α) : ℕ := d.count

/-- The deque holds the entries `xs`, front first, and nothing else. The capacity stays a power of
two, so that halving it is exact. -/
structure Holds (d : Deque α) (xs : List (Option α)) : Prop where
  capacity : ∃ k, d.buffer.length = minCapacity * 2 ^ k
  head : d.head < d.buffer.length
  count : d.count = xs.length
  fits : xs.length ≤ d.buffer.length
  cells : ∀ k < d.buffer.length, d.buffer[d.slot k]? = some (xs[k]?).join

variable {d : Deque α} {xs : List (Option α)}

theorem Holds.slot_lt (h : d.Holds xs) {k : ℕ} (hk : k < d.buffer.length) :
    d.slot k < d.buffer.length := by
  have hhead := h.head
  unfold slot
  split <;> omega

/-- Every cell has a place behind the head. -/
theorem Holds.exists_slot (h : d.Holds xs) {i : ℕ} (hi : i < d.buffer.length) :
    ∃ k < d.buffer.length, d.slot k = i := by
  have hhead := h.head
  by_cases hwrapped : d.head ≤ i
  · refine ⟨i - d.head, by omega, ?_⟩
    unfold slot
    rw [if_pos (by omega)]
    omega
  · refine ⟨i + d.buffer.length - d.head, by omega, ?_⟩
    unfold slot
    rw [if_neg (by omega)]
    omega

/-- A cell outside the live range holds nothing. -/
theorem Holds.cleared (h : d.Holds xs) {i : ℕ} (hi : i < d.buffer.length)
    (hdead : ∀ k < d.count, d.slot k ≠ i) : d.buffer[i]? = some none := by
  obtain ⟨k, hk, rfl⟩ := h.exists_slot hi
  have hge : xs.length ≤ k := by
    have hcount := h.count
    by_contra hlt
    exact hdead k (by omega) rfl
  rw [h.cells k hk, List.getElem?_eq_none hge]
  rfl

theorem holds_empty : (empty : Deque α).Holds [] where
  capacity := ⟨0, by simp [empty]⟩
  head := by simp [empty, minCapacity]
  count := rfl
  fits := Nat.zero_le _
  cells := by
    intro k hk
    have hslot : (empty : Deque α).slot k = k := by
      unfold slot
      rw [if_pos (by simpa [empty] using hk)]
      simp [empty]
    rw [hslot]
    simp only [empty, List.length_replicate] at hk ⊢
    rw [List.getElem?_replicate, if_pos hk]
    rfl

theorem length_copied (d : Deque α) (n source : ℕ) : (d.copied n source).length = n := by
  induction n generalizing source with
  | zero => rfl
  | succ n ih => simp [copied, ih]

/-- The copy loop reads the cells of the entries in order. -/
theorem getElem?_copied (d : Deque α) {n i k : ℕ} (hhead : d.head < d.buffer.length)
    (hk : k < n) (hfits : i + n ≤ d.buffer.length) :
    (d.copied n (d.slot i))[k]? = some (d.buffer[d.slot (i + k)]?).join := by
  induction n generalizing i k with
  | zero => omega
  | succ n ih =>
    cases k with
    | zero => rfl
    | succ k =>
      have hnext : (if d.slot i + 1 = d.buffer.length then 0 else d.slot i + 1) =
          d.slot (i + 1) := by
        unfold slot
        split_ifs <;> omega
      have hshift : i + (k + 1) = i + 1 + k := by omega
      rw [copied, List.getElem?_cons_succ, hnext, hshift]
      exact ih (by omega) (by omega)

/-- A resized deque that has room for the entries holds them. -/
theorem Holds.resize (h : d.Holds xs) {capacity : ℕ}
    (hcapacity : ∃ k, capacity = minCapacity * 2 ^ k) (hroom : xs.length ≤ capacity) :
    (d.resize capacity).Holds xs := by
  have hcount := h.count
  have hfits := h.fits
  have hlength : (d.resize capacity).buffer.length = capacity := by
    simp only [Deque.resize, List.length_append, length_copied, List.length_replicate]
    omega
  have hpositive : 0 < capacity := by
    obtain ⟨k, rfl⟩ := hcapacity
    have hpow : 0 < 2 ^ k := Nat.two_pow_pos k
    unfold minCapacity
    omega
  refine ⟨?_, ?_, h.count, ?_, ?_⟩
  · rw [hlength]
    exact hcapacity
  · rw [hlength]
    exact hpositive
  · rw [hlength]
    exact hroom
  · intro k hk
    rw [hlength] at hk
    have hslot : (d.resize capacity).slot k = k := by
      have hhead : (d.resize capacity).head = 0 := rfl
      unfold slot
      rw [hlength, hhead, Nat.zero_add]
      exact if_pos hk
    rw [hslot]
    simp only [Deque.resize]
    by_cases hlive : k < d.count
    · have hstart : d.slot 0 = d.head := by
        unfold slot
        exact if_pos h.head
      have hcopied := getElem?_copied d (i := 0) h.head hlive (by omega)
      rw [Nat.zero_add, hstart, h.cells k (by omega)] at hcopied
      rw [List.getElem?_append_left (by rw [length_copied]; exact hlive), hcopied]
      rfl
    · rw [List.getElem?_append_right (by rw [length_copied]; omega), length_copied,
        List.getElem?_replicate, if_pos (by omega), List.getElem?_eq_none (by omega)]
      rfl

theorem Holds.ensureCapacity (h : d.Holds xs) :
    d.ensureCapacity.Holds xs ∧ xs.length < d.ensureCapacity.buffer.length := by
  have hcount := h.count
  have hfits := h.fits
  have hhead := h.head
  unfold Deque.ensureCapacity
  by_cases hroom : d.count < d.buffer.length
  · rw [if_pos hroom]
    exact ⟨h, by omega⟩
  · rw [if_neg hroom]
    obtain ⟨k, hk⟩ := h.capacity
    refine ⟨h.resize ⟨k + 1, ?_⟩ (by omega), ?_⟩
    · rw [hk, Nat.pow_succ, Nat.mul_assoc]
    · simp only [Deque.resize, List.length_append, length_copied, List.length_replicate]
      omega

theorem Holds.pushBack (h : d.Holds xs) (value : Option α) :
    (d.pushBack value).Holds (xs ++ [value]) := by
  obtain ⟨he, hroom⟩ := h.ensureCapacity
  have hcount := he.count
  have hlength : (d.pushBack value).buffer.length = d.ensureCapacity.buffer.length := by
    simp [Deque.pushBack]
  have hslot : ∀ k, (d.pushBack value).slot k = d.ensureCapacity.slot k := by
    intro k
    unfold slot
    rw [hlength]
    rfl
  refine ⟨?_, ?_, ?_, ?_, ?_⟩
  · rw [hlength]
    exact he.capacity
  · rw [hlength]
    exact he.head
  · simp [Deque.pushBack, he.count]
  · rw [hlength, List.length_append, List.length_singleton]
    omega
  · intro k hk
    rw [hlength] at hk
    rw [hslot]
    simp only [Deque.pushBack]
    by_cases hlast : k = xs.length
    · rw [hlast, hcount, List.getElem?_set_self (he.slot_lt (by omega)),
        List.getElem?_concat_length]
      rfl
    · have hne : d.ensureCapacity.slot d.ensureCapacity.count ≠ d.ensureCapacity.slot k := by
        have hhead := he.head
        unfold slot
        split_ifs <;> omega
      have hsame : (xs ++ [value])[k]? = xs[k]? := by
        by_cases hlt : k < xs.length
        · exact List.getElem?_append_left hlt
        · rw [List.getElem?_eq_none (by rw [List.length_append, List.length_singleton]; omega),
            List.getElem?_eq_none (by omega)]
      rw [List.getElem?_set_ne hne, he.cells k hk, hsame]

/-- Prepending an entry. -/
theorem Holds.pushFront (h : d.Holds xs) (value : Option α) :
    (d.pushFront value).Holds (value :: xs) := by
  obtain ⟨he, hroom⟩ := h.ensureCapacity
  have hhead := he.head
  have hlength : (d.pushFront value).buffer.length = d.ensureCapacity.buffer.length := by
    simp [Deque.pushFront]
  have hfirst : (d.pushFront value).head < d.ensureCapacity.buffer.length := by
    simp only [Deque.pushFront]
    split <;> omega
  refine ⟨?_, ?_, ?_, ?_, ?_⟩
  · rw [hlength]
    exact he.capacity
  · rw [hlength]
    exact hfirst
  · simp [Deque.pushFront, he.count]
  · rw [hlength, List.length_cons]
    omega
  · intro k hk
    rw [hlength] at hk
    cases k with
    | zero =>
      have hfront : (d.pushFront value).slot 0 = (d.pushFront value).head := by
        unfold slot
        rw [hlength]
        exact if_pos hfirst
      rw [hfront]
      simp only [Deque.pushFront] at hfirst ⊢
      rw [List.getElem?_set_self hfirst]
      rfl
    | succ k =>
      have hnext : (d.pushFront value).slot (k + 1) = d.ensureCapacity.slot k := by
        unfold slot
        rw [hlength]
        simp only [Deque.pushFront]
        split_ifs <;> omega
      have hne : (d.pushFront value).head ≠ d.ensureCapacity.slot k := by
        unfold slot
        simp only [Deque.pushFront]
        split_ifs <;> omega
      rw [hnext, List.getElem?_cons_succ, ← he.cells k (by omega)]
      simp only [Deque.pushFront] at hne ⊢
      rw [List.getElem?_set_ne hne]

theorem Holds.compact (h : d.Holds xs) : d.compact.Holds xs := by
  have hcount := h.count
  have hhead := h.head
  unfold Deque.compact
  by_cases hempty : d.count = 0
  · rw [if_pos hempty]
    have hnil : xs = [] := List.eq_nil_of_length_eq_zero (by omega)
    subst xs
    refine ⟨h.capacity, Nat.zero_lt_of_lt h.head, h.count, Nat.zero_le _, ?_⟩
    -- without entries every cell is free, so any place may be the head
    intro k hk
    have hslot : ({ d with head := 0 } : Deque α).slot k = k := by
      simp only [slot, Nat.zero_add]
      exact if_pos hk
    rw [hslot]
    exact h.cleared hk (by intro l hl; omega)
  · rw [if_neg hempty]
    by_cases hsparse : minCapacity < d.buffer.length ∧ 4 * d.count ≤ d.buffer.length
    · rw [if_pos hsparse]
      obtain ⟨k, hk⟩ := h.capacity
      apply h.resize
      · cases k with
        | zero =>
          rw [Nat.pow_zero, Nat.mul_one] at hk
          omega
        | succ k =>
          refine ⟨k, ?_⟩
          have hhalf : d.buffer.length / 2 = minCapacity * 2 ^ k := by
            rw [hk, Nat.pow_succ, ← Nat.mul_assoc, Nat.mul_div_cancel _ (by decide)]
          have hpow : 0 < 2 ^ k := Nat.two_pow_pos k
          rw [hhalf]
          exact Nat.max_eq_right (Nat.le_mul_of_pos_right _ hpow)
      · omega
    · rw [if_neg hsparse]
      exact h

theorem Holds.popFront_nil (h : d.Holds []) : d.popFront = (none, d) := by
  have hzero : d.count = 0 := h.count
  rw [popFront, if_pos hzero]

/-- Removing the front entry. -/
theorem Holds.popFront_cons {x : Option α} (h : d.Holds (x :: xs)) :
    d.popFront.1 = x ∧ d.popFront.2.Holds xs := by
  have hcount := h.count
  have hhead := h.head
  have hfits := h.fits
  rw [List.length_cons] at hcount hfits
  have hfirst : d.slot 0 = d.head := by
    unfold slot
    exact if_pos h.head
  have hfound : d.buffer[d.head]? = some x := by
    rw [← hfirst, h.cells 0 (by omega)]
    rfl
  have hne : d.count ≠ 0 := by omega
  rw [popFront, if_neg hne]
  refine ⟨by rw [hfound]; rfl, Holds.compact ?_⟩
  refine ⟨?_, ?_, ?_, ?_, ?_⟩
  · rw [List.length_set]
    exact h.capacity
  · rw [List.length_set]
    dsimp only
    split <;> omega
  · dsimp only
    omega
  · rw [List.length_set]
    omega
  · intro k hk
    rw [List.length_set] at hk
    have hslot : slot ⟨d.buffer.set d.head none, if d.head + 1 = d.buffer.length then 0
        else d.head + 1, d.count - 1⟩ k = if k + 1 = d.buffer.length then d.head
        else d.slot (k + 1) := by
      simp only [slot, List.length_set]
      split_ifs <;> omega
    rw [hslot]
    by_cases hlast : k + 1 = d.buffer.length
    · -- the place behind the last one is the cell that was freed
      rw [if_pos hlast, List.getElem?_set_self h.head, List.getElem?_eq_none (by omega)]
      rfl
    · have hother : d.head ≠ d.slot (k + 1) := by
        unfold slot
        split_ifs <;> omega
      rw [if_neg hlast, List.getElem?_set_ne hother, h.cells (k + 1) (by omega),
        List.getElem?_cons_succ]

/-! ## Sequences of operations -/

inductive Operation (α : Type) where
  | pushBack (value : Option α)
  | pushFront (value : Option α)
  | popFront
  | clear
  | size

inductive Answer (α : Type) where
  | done
  | popped (value : Option α)
  | size (n : ℕ)
deriving DecidableEq

def machine (α : Type) : Machine (Deque α) (Operation α) (Answer α) where
  step d
    | .pushBack value => (d.pushBack value, .done)
    | .pushFront value => (d.pushFront value, .done)
    | .popFront => (d.popFront.2, .popped d.popFront.1)
    | .clear => (d.clear, .done)
    | .size => (d, .size d.size)

/-- The plain list that the deque stands for. -/
def listMachine (α : Type) : Machine (List (Option α)) (Operation α) (Answer α) where
  step xs
    | .pushBack value => (xs ++ [value], .done)
    | .pushFront value => (value :: xs, .done)
    | .popFront => (xs.tail, .popped xs.head?.join)
    | .clear => ([], .done)
    | .size => (xs, .size xs.length)

/-- The deque does what the list does, operation by operation. -/
theorem simulates : Machine.Simulation (machine α) (listMachine α) Holds where
  output := by
    intro d xs h op
    cases op with
    | popFront =>
      cases xs with
      | nil => exact congrArg (fun popped => Answer.popped popped.1) h.popFront_nil
      | cons x xs => exact congrArg Answer.popped h.popFront_cons.1
    | size => exact congrArg Answer.size h.count
    | _ => rfl
  step := by
    intro d xs h op
    cases op with
    | pushBack value => exact h.pushBack value
    | pushFront value => exact h.pushFront value
    | popFront =>
      cases xs with
      | nil =>
        show d.popFront.2.Holds []
        rw [h.popFront_nil]
        exact h
      | cons x xs => exact h.popFront_cons.2
    | clear => exact holds_empty
    | size => exact h

/-- Every sequence of operations on a new deque is answered as a list answers it, and leaves a
buffer of 16 times a power of two cells with a valid head and nothing outside the live range. -/
theorem deque_refines_list (ops : List (Operation α)) :
    (machine α).outputs empty ops = (listMachine α).outputs [] ops ∧
      ((machine α).after empty ops).count = ((listMachine α).after [] ops).length ∧
      (∃ k, ((machine α).after empty ops).buffer.length = 16 * 2 ^ k) ∧
      ((machine α).after empty ops).head < ((machine α).after empty ops).buffer.length ∧
      ∀ i < ((machine α).after empty ops).buffer.length,
        (∀ k < ((machine α).after empty ops).count, ((machine α).after empty ops).slot k ≠ i) →
          ((machine α).after empty ops).buffer[i]? = some none := by
  have hafter := simulates.after holds_empty ops
  refine ⟨simulates.outputs holds_empty ops, hafter.count, hafter.capacity, hafter.head, ?_⟩
  intro i hi hdead
  exact hafter.cleared hi hdead

end Deque

end TianmaCoder
