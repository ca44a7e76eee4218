import Mathlib.Data.List.Nodup
import Mathlib.Data.List.Perm.Subperm
import Mathlib.Logic.Relation
import TianmaCoder.Lib.Checked

/-!
# Depth-first walks

The recursive walk that colours the vertices of a graph while it looks for a cycle: a vertex
is being visited while its successors are walked, and visited afterwards. A graph is given by
the successors of its vertices; what has none is not a vertex and is skipped.

## Main definitions

* `DepthFirst.visit`, `DepthFirst.walk` — the walk from one vertex and from a list of them.
* `DepthFirst.Edge`, `DepthFirst.Acyclic` — the relation that is walked.

## Main results

* `DepthFirst.walk_ok_iff` — a walk over all vertices ends exactly on acyclic graphs.
* `DepthFirst.walk_error` — a walk that stops names a vertex on a cycle.
-/

namespace TianmaCoder

namespace DepthFirst

variable {α : Type*}

/-- The vertices whose visit has begun, and those whose visit has ended. -/
structure Marks (α : Type*) where
  visiting : List α
  visited : List α
  deriving DecidableEq, Repr

/-- Why a walk stops. -/
inductive Stop (α : Type*) where
  /-- The vertex was reached again during its own visit. -/
  | cycle (vertex : α)
  /-- The recursion is deeper than its bound. -/
  | depth
  deriving DecidableEq, Repr

/-- `b` is a successor of the vertex `a`. -/
def Edge (next : α → Option (List α)) (a b : α) : Prop := ∃ succs, next a = some succs ∧ b ∈ succs

/-- No vertex is reached from itself. -/
def Acyclic (next : α → Option (List α)) : Prop := ∀ a, ¬Relation.TransGen (Edge next) a a

variable [DecidableEq α] (next : α → Option (List α))

/-- Visit one vertex and, before it counts as visited, its successors. -/
def visit : ℕ → Marks α → α → Except (Stop α) (Marks α)
  | 0, _, _ => .error .depth
  | fuel + 1, marks, a =>
    if a ∈ marks.visiting then .error (.cycle a)
    else if a ∈ marks.visited then .ok marks
    else
      match next a with
      | none => .ok marks
      | some succs => do
        let after ← succs.foldlM (visit fuel) { marks with visiting := marks.visiting ++ [a] }
        .ok { visiting := after.visiting.erase a, visited := after.visited ++ [a] }

/-- Visit the vertices of a list in turn. -/
def walk (fuel : ℕ) (vertices : List α) : Except (Stop α) (Marks α) :=
  vertices.foldlM (visit next fuel) { visiting := [], visited := [] }

variable {next} {fuel : ℕ} {m m' : Marks α} {a b : α}

omit [DecidableEq α] in
theorem Edge.isSome (h : Edge next a b) : (next a).isSome = true := by
  obtain ⟨succs, hnext, -⟩ := h
  simp [hnext]

omit [DecidableEq α] in
/-- A vertex from which every path ends is on no cycle. -/
theorem not_transGen_of_acc (h : Acc (fun x y => Edge next y x) a) :
    ¬Relation.TransGen (Edge next) a a := by
  induction h with
  | intro a _ ih =>
    intro hcycle
    obtain ⟨b, hab, hba⟩ := Relation.TransGen.head'_iff.mp hcycle
    have hb : Relation.TransGen (Edge next) b b := Relation.TransGen.tail' hba hab
    exact ih b hab hb

/-! ### Walks that end -/

/-- What a walk over the vertices `seen` has done: the visits in progress are those it started
from, its vertices are visited, and every path from a visited vertex ends. -/
structure Ended (next : α → Option (List α)) (m : Marks α) (seen : List α) (m' : Marks α) :
    Prop where
  visiting : m'.visiting = m.visiting
  subset : m.visited ⊆ m'.visited
  seen : ∀ b ∈ seen, (next b).isSome = true → b ∈ m'.visited
  acc : (∀ b ∈ m.visited, Acc (fun x y => Edge next y x) b) →
    ∀ b ∈ m'.visited, Acc (fun x y => Edge next y x) b

omit [DecidableEq α] in
theorem Ended.refl (m : Marks α) : Ended next m [] m where
  visiting := rfl
  subset := List.Subset.refl _
  seen := by simp
  acc h := h

omit [DecidableEq α] in
theorem Ended.append {seen later : List α} {m'' : Marks α} (h : Ended next m seen m')
    (h' : Ended next m' later m'') : Ended next m (seen ++ later) m'' where
  visiting := h'.visiting.trans h.visiting
  subset := List.Subset.trans h.subset h'.subset
  seen := by
    intro b hb hvertex
    rcases List.mem_append.mp hb with hb | hb
    · exact h'.subset (h.seen b hb hvertex)
    · exact h'.seen b hb hvertex
  acc hacc := h'.acc (h.acc hacc)

/-- A loop of visits has done what its visits did. -/
theorem ended_foldlM (hvisit : ∀ m m' a, visit next fuel m a = .ok m' → Ended next m [a] m')
    {seen : List α} (h : seen.foldlM (visit next fuel) m = .ok m') : Ended next m seen m' := by
  refine Checked.foldlM_induction (motive := fun done s => Ended next m done s) h (Ended.refl m) ?_
  intro done x s s' _ hdone hx
  exact hdone.append (hvisit s s' x hx)

theorem ended_of_visit (h : visit next fuel m a = .ok m') : Ended next m [a] m' := by
  induction fuel generalizing m m' a with
  | zero => cases h
  | succ fuel ih =>
    rw [visit] at h
    by_cases hvisiting : a ∈ m.visiting
    · rw [if_pos hvisiting] at h
      cases h
    rw [if_neg hvisiting] at h
    by_cases hvisited : a ∈ m.visited
    · rw [if_pos hvisited, Except.ok.injEq] at h
      subst h
      refine { Ended.refl m with seen := ?_ }
      intro b hb _
      rwa [List.mem_singleton.mp hb]
    rw [if_neg hvisited] at h
    cases hnext : next a with
    | none =>
      rw [hnext] at h
      cases h
      refine { Ended.refl m with seen := ?_ }
      intro b hb hvertex
      rw [List.mem_singleton.mp hb, hnext] at hvertex
      cases hvertex
    | some succs =>
      rw [hnext, Checked.bind_ok_iff] at h
      obtain ⟨after, hafter, hm'⟩ := h
      cases hm'
      have hended := ended_foldlM (fun _ _ _ => ih) hafter
      constructor
      · rw [hended.visiting]
        simp [List.erase_append_right, hvisiting]
      · exact List.Subset.trans hended.subset (List.subset_append_left _ _)
      · intro b hb _
        simp [List.mem_singleton.mp hb]
      · intro hacc b hb
        have hold := hended.acc hacc
        rcases List.mem_append.mp hb with hb | hb
        · exact hold b hb
        -- every successor of `a` is visited or not a vertex
        rw [List.mem_singleton.mp hb]
        constructor
        rintro c ⟨succs', hsuccs, hc⟩
        rw [hnext, Option.some.injEq] at hsuccs
        subst hsuccs
        by_cases hvertex : (next c).isSome = true
        · exact hold c (hended.seen c hc hvertex)
        · constructor
          intro d hd
          exact absurd hd.isSome hvertex

/-! ### Walks that stop -/

/-- The visits in progress when `a` is reached: distinct vertices that lead to it, whose number
the bound on the recursion has been reduced by. -/
structure Trail (next : α → Option (List α)) (vertices : List α) (fuel : ℕ) (m : Marks α)
    (a : α) : Prop where
  leads : ∀ b ∈ m.visiting, Relation.TransGen (Edge next) b a
  nodup : m.visiting.Nodup
  vertex : m.visiting ⊆ vertices
  bound : vertices.length < fuel + m.visiting.length

/-- A visit that stops has come back to a vertex on its trail. -/
theorem visit_error {vertices : List α} (hall : ∀ b, (next b).isSome = true → b ∈ vertices)
    {e : Stop α} (htrail : Trail next vertices fuel m a) (h : visit next fuel m a = .error e) :
    ∃ b, e = .cycle b ∧ Relation.TransGen (Edge next) b b := by
  induction fuel generalizing m a with
  | zero =>
    have hlength := (List.subperm_of_subset htrail.nodup htrail.vertex).length_le
    have hbound := htrail.bound
    omega
  | succ fuel ih =>
    rw [visit] at h
    by_cases hvisiting : a ∈ m.visiting
    · rw [if_pos hvisiting] at h
      cases h
      exact ⟨a, rfl, htrail.leads a hvisiting⟩
    rw [if_neg hvisiting] at h
    by_cases hvisited : a ∈ m.visited
    · rw [if_pos hvisited] at h
      cases h
    rw [if_neg hvisited] at h
    cases hnext : next a with
    | none =>
      rw [hnext] at h
      cases h
    | some succs =>
      simp only [hnext] at h
      cases hafter : succs.foldlM (visit next fuel)
          { m with visiting := m.visiting ++ [a] } with
      | ok after =>
        rw [hafter] at h
        cases h
      | error stop =>
        rw [hafter] at h
        cases h
        obtain ⟨done, x, s, hinfix, hdone, hx⟩ := Checked.foldlM_error hafter
        have hended := ended_foldlM (fun _ _ _ => ended_of_visit) hdone
        have hmem : x ∈ succs := hinfix.subset (by simp)
        refine ih ?_ hx
        constructor
        · intro b hb
          rw [hended.visiting] at hb
          have hax : Edge next a x := ⟨succs, hnext, hmem⟩
          rcases List.mem_append.mp hb with hb | hb
          · exact (htrail.leads b hb).tail hax
          · rw [List.mem_singleton.mp hb]
            exact .single hax
        · rw [hended.visiting]
          exact List.Nodup.append htrail.nodup (List.nodup_singleton a) (by simpa using hvisiting)
        · rw [hended.visiting]
          intro b hb
          rcases List.mem_append.mp hb with hb | hb
          · exact htrail.vertex hb
          · rw [List.mem_singleton.mp hb]
            exact hall a (by simp [hnext])
        · have hbound := htrail.bound
          rw [hended.visiting, List.length_append, List.length_singleton]
          omega

section Walk

variable {vertices : List α} (hall : ∀ b, (next b).isSome = true → b ∈ vertices)
  (hfuel : vertices.length < fuel)

include hall hfuel

theorem walk_error {e : Stop α} (h : walk next fuel vertices = .error e) :
    ∃ b, e = .cycle b ∧ Relation.TransGen (Edge next) b b := by
  obtain ⟨done, x, s, _, hdone, hx⟩ := Checked.foldlM_error h
  have hended := ended_foldlM (fun _ _ _ => ended_of_visit) hdone
  refine visit_error hall ?_ hx
  constructor
  · simp [hended.visiting]
  · simp [hended.visiting]
  · simp [hended.visiting]
  · simpa [hended.visiting] using hfuel

theorem walk_ok_iff : (∃ m, walk next fuel vertices = .ok m) ↔ Acyclic next := by
  constructor
  · rintro ⟨m, hm⟩ a hcycle
    have hended := ended_foldlM (fun _ _ _ => ended_of_visit) hm
    obtain ⟨b, hab, _⟩ := Relation.TransGen.head'_iff.mp hcycle
    have ha : a ∈ m.visited := hended.seen a (hall a hab.isSome) hab.isSome
    exact not_transGen_of_acc (hended.acc (by simp) a ha) hcycle
  · intro hacyclic
    cases hwalk : walk next fuel vertices with
    | ok m => exact ⟨m, rfl⟩
    | error e =>
      obtain ⟨b, _, hcycle⟩ := walk_error hall hfuel hwalk
      exact absurd hcycle (hacyclic b)

end Walk

end DepthFirst

end TianmaCoder
