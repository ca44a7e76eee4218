import Mathlib.Data.List.Basic
import Mathlib.Data.Nat.Notation

/-!
# A heap of cells

Cells that are referred to by their position and written in place. A new cell is appended,
so a reference that is held stays valid, and what is read through it changes only by a
write to that very reference.

## Main definitions

* `Heap.read`, `Heap.write`, `Heap.alloc` — the operations.
* `Heap.Keeps` — another heap reads the same through every reference of a set.
-/

namespace TianmaCoder

/-- Cells by their position. -/
structure Heap (α : Type*) where
  cells : List α

namespace Heap

variable {α : Type*} {h h' h'' : Heap α} {r s : ℕ} {a b : α}

def empty : Heap α := ⟨[]⟩

def read (h : Heap α) (r : ℕ) : Option α := h.cells[r]?

/-- Replace the content of a cell. -/
def write (h : Heap α) (r : ℕ) (a : α) : Heap α := ⟨h.cells.set r a⟩

/-- A new cell: its reference and the heap with it. -/
def alloc (h : Heap α) (a : α) : ℕ × Heap α := (h.cells.length, ⟨h.cells ++ [a]⟩)

theorem lt_of_read (hr : h.read r = some a) : r < h.cells.length := by
  have ⟨hlt, _⟩ := List.getElem?_eq_some_iff.mp hr
  exact hlt

@[simp] theorem read_alloc_self : (h.alloc a).2.read (h.alloc a).1 = some a := by
  simp [alloc, read]

theorem read_alloc (hr : r < h.cells.length) : (h.alloc a).2.read r = h.read r := by
  simp [alloc, read, List.getElem?_append_left hr]

/-- A new cell is read through its own reference only. -/
theorem read_alloc_of_ne (hne : r ≠ h.cells.length) : (h.alloc a).2.read r = h.read r := by
  by_cases hlt : r < h.cells.length
  · exact read_alloc hlt
  · have hnew : (h.cells ++ [a]).length ≤ r := by
      rw [List.length_append, List.length_singleton]
      omega
    rw [read, read, alloc, List.getElem?_eq_none hnew, List.getElem?_eq_none (by omega)]

theorem read_write_self (hr : r < h.cells.length) : (h.write r a).read r = some a := by
  simp [write, read, hr]

theorem read_write_of_ne (hne : r ≠ s) : (h.write s a).read r = h.read r := by
  simp [write, read, List.getElem?_set_ne hne.symm]

@[simp] theorem length_write : (h.write r a).cells.length = h.cells.length := by
  simp [write]

@[simp] theorem length_alloc : (h.alloc a).2.cells.length = h.cells.length + 1 := by
  simp [alloc]

/-- The later heap reads as the earlier one through every reference of the set. -/
def Keeps (h h' : Heap α) (refs : Set ℕ) : Prop :=
  ∀ r ∈ refs, r < h.cells.length → h'.read r = h.read r

namespace Keeps

variable {refs : Set ℕ}

theorem refl (h : Heap α) (refs : Set ℕ) : h.Keeps h refs := fun _ _ _ => rfl

theorem read_some (hk : h.Keeps h' refs) (hr : r ∈ refs) (ha : h.read r = some a) :
    h'.read r = some a := by
  rw [hk r hr (lt_of_read ha), ha]

theorem trans (hk : h.Keeps h' refs) (hk' : h'.Keeps h'' refs)
    (hle : h.cells.length ≤ h'.cells.length) : h.Keeps h'' refs := by
  intro r hr hlt
  rw [hk' r hr (by omega), hk r hr hlt]

/-- A new cell changes nothing that could be read. -/
theorem alloc (h : Heap α) (a : α) (refs : Set ℕ) : h.Keeps (h.alloc a).2 refs :=
  fun _ _ hlt => read_alloc hlt

/-- A write is seen through its own reference only. -/
theorem write (h : Heap α) (hs : s ∉ refs) (a : α) : h.Keeps (h.write s a) refs := by
  intro r hr _
  have hne : r ≠ s := fun heq => hs (heq ▸ hr)
  exact read_write_of_ne hne

end Keeps

end Heap

end TianmaCoder
