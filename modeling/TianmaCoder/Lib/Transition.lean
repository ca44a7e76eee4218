import Mathlib.Data.List.Basic

/-!
# Partial transition functions

A transition function that is undefined where an action is not enabled. A run is a list of
actions each of which is enabled where it is taken; an invariant that every taken step
preserves holds at the end of every run, also when the runs are those whose steps meet a
condition on the state they leave.

## Main definitions

* `Transition.run` — the state after a list of actions, if all of them are enabled.
* `Transition.Guarded` — every action of a run is taken from a state that meets a condition.
-/

namespace TianmaCoder

namespace Transition

variable {σ α : Type*} (step : σ → α → Option σ)

/-- Take the actions one after another. -/
def run (s : σ) : List α → Option σ
  | [] => some s
  | a :: as => (step s a).bind fun s' => run s' as

/-- Every action is taken from a state in which `ok` admits it. -/
def Guarded (ok : σ → α → Prop) (s : σ) : List α → Prop
  | [] => True
  | a :: as => ok s a ∧ ∀ s', step s a = some s' → Guarded ok s' as

variable {step}

@[simp] theorem run_nil (s : σ) : run step s [] = some s := rfl

variable {as : List α} {s : σ}

theorem run_cons_eq_some_iff {s' : σ} {a : α} :
    run step s (a :: as) = some s' ↔ ∃ t, step s a = some t ∧ run step t as = some s' :=
  Option.bind_eq_some_iff

theorem run_append (s : σ) (as bs : List α) :
    run step s (as ++ bs) = (run step s as).bind fun t => run step t bs := by
  induction as generalizing s with
  | nil => rfl
  | cons a as ih =>
    rw [List.cons_append, run, run]
    cases step s a with
    | none => rfl
    | some t => exact ih t

variable {ok : σ → α → Prop}

/-- A guarded run is guarded in both parts. -/
theorem guarded_append {bs : List α} (h : Guarded step ok s (as ++ bs)) :
    Guarded step ok s as ∧ ∀ t, run step s as = some t → Guarded step ok t bs := by
  induction as generalizing s with
  | nil =>
    refine ⟨trivial, ?_⟩
    intro t ht
    cases ht
    exact h
  | cons a as ih =>
    refine ⟨⟨h.1, fun t ht => (ih (h.2 t ht)).1⟩, ?_⟩
    intro t ht
    obtain ⟨u, hu, hrest⟩ := run_cons_eq_some_iff.mp ht
    exact (ih (h.2 u hu)).2 t hrest

theorem guarded_cons {t : σ} {a : α} (hok : ok s a) (hstep : step s a = some t)
    (hrest : Guarded step ok t as) : Guarded step ok s (a :: as) := by
  refine ⟨hok, ?_⟩
  intro s' hs'
  cases hstep.symm.trans hs'
  exact hrest

variable {ok' : σ → α → Prop}

theorem Guarded.and (h : Guarded step ok s as) (h' : Guarded step ok' s as) :
    Guarded step (fun s a => ok s a ∧ ok' s a) s as := by
  induction as generalizing s with
  | nil => trivial
  | cons a as ih => exact ⟨⟨h.1, h'.1⟩, fun t ht => ih (h.2 t ht) (h'.2 t ht)⟩

variable {motive : σ → Prop}

theorem run_induction_of_guarded
    (hstep : ∀ s a s', motive s → ok s a → step s a = some s' → motive s') {s' : σ}
    (hinit : motive s) (hok : Guarded step ok s as) (hrun : run step s as = some s') :
    motive s' := by
  induction as generalizing s with
  | nil =>
    rw [run_nil, Option.some.injEq] at hrun
    exact hrun ▸ hinit
  | cons a as ih =>
    have ⟨t, ht, hrest⟩ := run_cons_eq_some_iff.mp hrun
    exact ih (hstep s a t hinit hok.1 ht) (hok.2 t ht) hrest

theorem guarded_of_forall (h : ∀ s a, ok s a) (s : σ) (as : List α) : Guarded step ok s as := by
  induction as generalizing s with
  | nil => trivial
  | cons a as ih => exact ⟨h s a, fun s' _ => ih s'⟩

theorem guarded_of_mem (h : ∀ a ∈ as, ∀ s, ok s a) (s : σ) : Guarded step ok s as := by
  induction as generalizing s with
  | nil => trivial
  | cons a as ih =>
    exact ⟨h a (by simp) s, fun s' _ => ih (fun b hb => h b (List.mem_cons_of_mem a hb)) s'⟩

/-- Conditions that agree under an invariant guard the same runs, among the runs whose steps
meet a side condition. -/
theorem guarded_congr_under {side : σ → α → Prop}
    (hiff : ∀ s a, motive s → side s a → (ok s a ↔ ok' s a))
    (hstep : ∀ s a s', motive s → side s a → ok' s a → step s a = some s' → motive s')
    (hs : motive s) (hside : Guarded step side s as) :
    Guarded step ok s as ↔ Guarded step ok' s as := by
  induction as generalizing s with
  | nil => exact Iff.rfl
  | cons a as ih =>
    have hrest : ok' s a → ∀ t, step s a = some t →
        (Guarded step ok t as ↔ Guarded step ok' t as) := by
      intro hok t ht
      exact ih (hstep s a t hs hside.1 hok ht) (hside.2 t ht)
    constructor
    · intro h
      have hok := (hiff s a hs hside.1).mp h.1
      exact ⟨hok, fun t ht => (hrest hok t ht).mp (h.2 t ht)⟩
    · intro h
      refine ⟨(hiff s a hs hside.1).mpr h.1, fun t ht => ?_⟩
      exact (hrest h.1 t ht).mpr (h.2 t ht)

/-- Conditions that agree under an invariant guard the same runs. -/
theorem guarded_congr (hiff : ∀ s a, motive s → (ok s a ↔ ok' s a))
    (hstep : ∀ s a s', motive s → ok' s a → step s a = some s' → motive s') (hs : motive s) :
    Guarded step ok s as ↔ Guarded step ok' s as :=
  by
  have hside : Guarded step (fun _ _ => True) s as := guarded_of_forall (fun _ _ => trivial) s as
  exact guarded_congr_under (fun s a hs _ => hiff s a hs) (fun s a s' hs _ => hstep s a s' hs) hs
    hside

theorem run_induction (hstep : ∀ s a s', motive s → step s a = some s' → motive s') {s' : σ}
    (hinit : motive s) (hrun : run step s as = some s') : motive s' := by
  have hguarded : Guarded step (fun _ _ => True) s as :=
    guarded_of_forall (fun _ _ => trivial) s as
  exact run_induction_of_guarded (fun s a s' hs _ => hstep s a s' hs) hinit hguarded hrun

theorem run_iff_guarded {inv good : σ → Prop} (hinv : ∀ s a t, inv s → step s a = some t → inv t)
    (hgood : ∀ s a t, inv s → step s a = some t → (good t ↔ good s ∧ ok s a)) {t : σ} (hs : inv s)
    (hrun : run step s as = some t) : good t ↔ good s ∧ Guarded step ok s as := by
  induction as generalizing s with
  | nil =>
    cases hrun
    simp [Guarded]
  | cons a as ih =>
    have ⟨u, hu, hrest⟩ := run_cons_eq_some_iff.mp hrun
    have hguarded : (∀ u', step s a = some u' → Guarded step ok u' as) ↔ Guarded step ok u as := by
      rw [hu]
      simp
    rw [ih (hinv s a u hs hu) hrest, hgood s a u hs hu, Guarded, hguarded, and_assoc]

end Transition

end TianmaCoder
