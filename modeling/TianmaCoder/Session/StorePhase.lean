import Mathlib.Data.List.Induction
import TianmaCoder.Lib.KeyedTrace

/-!
# The lifecycle of one store entry

What a store lets be seen of one entry: its creation dispatch and its append dispatches, each
with the point where it unwinds, its removal, and the disposal emitted for it. A lifecycle is a
word the machine below accepts: the creation dispatch begins once, the entry is removed when no
dispatch is open, and a removed entry that was announced is disposed of once and does nothing
more.

## Main definitions

* `LifecycleEdge`, `EntryPhase`, `EntryPhase.step` — the edges and the machine that reads them.

## Main results

* `EntryPhase.counts` — what an accepted word contains, from the phase it reaches.
* `EntryPhase.disposed_last` — no dispatch is open where the disposal stands, and nothing follows.
-/

namespace TianmaCoder

/-- What can be seen of one store entry. -/
inductive LifecycleEdge where
  /-- The `session/created` dispatch begins. -/
  | created
  | createdUnwound
  /-- A `session/event` dispatch begins. -/
  | event
  | eventUnwound
  /-- The entry leaves the store. -/
  | removed
  /-- The `session/disposed` dispatch begins. -/
  | disposed
  deriving DecidableEq, Repr

/-- How far the lifecycle of an entry has come. -/
structure EntryPhase where
  announced : Bool
  announcing : Bool
  appending : Bool
  live : Bool
  disposed : Bool
  deriving DecidableEq, Repr

namespace EntryPhase

/-- An entry that was just entered. -/
def entered : EntryPhase := ⟨false, false, false, true, false⟩

/-- The edges a phase allows. -/
def step (p : EntryPhase) : LifecycleEdge → Option EntryPhase
  | .created =>
    if p.live && !p.announced then some { p with announced := true, announcing := true } else none
  | .createdUnwound => if p.announcing then some { p with announcing := false } else none
  | .event => if p.live && !p.appending then some { p with appending := true } else none
  | .eventUnwound => if p.appending then some { p with appending := false } else none
  | .removed =>
    if p.live && !p.announcing && !p.appending then some { p with live := false } else none
  | .disposed =>
    if !p.live && p.announced && !p.disposed then some { p with disposed := true } else none

/-- What a word that reaches the phase contains of each edge. -/
structure Counts (word : List LifecycleEdge) (p : EntryPhase) : Prop where
  created : word.count .created = p.announced.toNat
  created_unwound : word.count .created = word.count .createdUnwound + p.announcing.toNat
  event_unwound : word.count .event = word.count .eventUnwound + p.appending.toNat
  removed : word.count .removed = (!p.live).toNat
  disposed : word.count .disposed = p.disposed.toNat

/-- A phase past its removal has no dispatch open, and one that was disposed of is past it. -/
structure Closed (p : EntryPhase) : Prop where
  removed : p.live = false → p.announcing = false ∧ p.appending = false
  disposed : p.disposed = true → p.live = false

variable {p : EntryPhase} {word : List LifecycleEdge}

theorem Counts.step {q : EntryPhase} {edge : LifecycleEdge} (h : Counts word p)
    (hstep : p.step edge = some q) : Counts (word ++ [edge]) q := by
  obtain ⟨announced, announcing, appending, live, disposed⟩ := p
  obtain ⟨hcreated, hcreatedUnwound, heventUnwound, hremoved, hdisposed⟩ := h
  cases edge <;> simp only [EntryPhase.step] at hstep <;> split at hstep <;> cases hstep <;>
    constructor <;> simp_all [List.count_append]

theorem Closed.step {q : EntryPhase} {edge : LifecycleEdge} (h : Closed p)
    (hstep : p.step edge = some q) : Closed q := by
  obtain ⟨announced, announcing, appending, live, disposed⟩ := p
  obtain ⟨hremoved, hdisposed⟩ := h
  cases edge <;> simp only [EntryPhase.step] at hstep <;> split at hstep <;> cases hstep <;>
    constructor <;> simp_all

/-- A phase that was disposed of allows no edge. -/
theorem Closed.step_eq_none (h : Closed p) (hp : p.disposed = true) (edge : LifecycleEdge) :
    p.step edge = none := by
  have hlive := h.disposed hp
  have hclosed := h.removed hlive
  cases edge <;> simp [EntryPhase.step, hp, hlive, hclosed.1, hclosed.2]

theorem step_disposed {q : EntryPhase} (h : p.step .disposed = some q) :
    p.live = false ∧ q.disposed = true := by
  simp only [step] at h
  split at h
  · rename_i hp
    cases h
    simp only [Bool.and_eq_true, Bool.not_eq_true'] at hp
    exact ⟨hp.1.1, rfl⟩
  · cases h

/-! ## Accepted words -/

theorem closed_of_run (h : Transition.run step entered word = some p) : Closed p := by
  refine Transition.run_induction (fun q edge r hq hr => hq.step hr) ?_ h
  constructor
  · intro hlive
    cases hlive
  · intro hdisposed
    cases hdisposed

theorem counts (h : Transition.run step entered word = some p) : Counts word p := by
  induction word using List.reverseRecOn generalizing p with
  | nil =>
    cases h
    constructor <;> rfl
  | append_singleton word edge ih =>
    rw [Transition.run_append, Option.bind_eq_some_iff] at h
    obtain ⟨q, hq, hrest⟩ := h
    obtain ⟨r, hr, hlast⟩ := Transition.run_cons_eq_some_iff.mp hrest
    cases hlast
    exact (ih hq).step hr

theorem disposed_last {pre post : List LifecycleEdge}
    (h : Transition.run step entered (pre ++ .disposed :: post) = some p) :
    pre.count .created = pre.count .createdUnwound ∧
      pre.count .event = pre.count .eventUnwound ∧ post = [] := by
  rw [Transition.run_append, Option.bind_eq_some_iff] at h
  obtain ⟨q, hq, hrest⟩ := h
  obtain ⟨r, hr, hpost⟩ := Transition.run_cons_eq_some_iff.mp hrest
  have hstep := step_disposed hr
  have hclosed := closed_of_run hq
  have hdone := hclosed.removed hstep.1
  have hcounts := counts hq
  refine ⟨?_, ?_, ?_⟩
  · have hcreated := hcounts.created_unwound
    rw [hdone.1] at hcreated
    exact hcreated
  · have hevent := hcounts.event_unwound
    rw [hdone.2] at hevent
    exact hevent
  · cases post with
    | nil => rfl
    | cons edge post =>
      obtain ⟨t, ht, _⟩ := Transition.run_cons_eq_some_iff.mp hpost
      rw [(hclosed.step hr).step_eq_none hstep.2 edge] at ht
      cases ht

end EntryPhase

end TianmaCoder
