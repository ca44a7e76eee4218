import Mathlib.Data.List.Basic

/-!
# Machines with outputs

A deterministic machine reads operations, changes its state and answers each one. A
`Simulation` relates the states of two machines whose answers agree step by step; related
states then answer every sequence of operations alike, which is how an implementation is
shown to refine its specification.

## Main definitions

* `Machine`, `Machine.run`, `Machine.after`, `Machine.outputs` — the machine and its runs.
* `Machine.Simulation` — the step-by-step agreement of two machines.
-/

namespace TianmaCoder

/-- A deterministic machine: one step per operation, one answer per step. -/
structure Machine (σ ι ο : Type*) where
  step : σ → ι → σ × ο

namespace Machine

variable {σ τ ι ο : Type*}

/-- The state after a sequence of operations, and the answers in order. -/
def run (M : Machine σ ι ο) (s : σ) : List ι → σ × List ο
  | [] => (s, [])
  | op :: ops =>
    let rest := run M (M.step s op).1 ops
    (rest.1, (M.step s op).2 :: rest.2)

/-- The state after a sequence of operations. -/
def after (M : Machine σ ι ο) (s : σ) (ops : List ι) : σ := (M.run s ops).1

/-- The answers to a sequence of operations. -/
def outputs (M : Machine σ ι ο) (s : σ) (ops : List ι) : List ο := (M.run s ops).2

variable (M : Machine σ ι ο) (N : Machine τ ι ο)

@[simp] theorem after_nil (s : σ) : M.after s [] = s := rfl
@[simp] theorem after_cons (s : σ) (op : ι) (ops : List ι) :
    M.after s (op :: ops) = M.after (M.step s op).1 ops := rfl
@[simp] theorem outputs_nil (s : σ) : M.outputs s [] = [] := rfl
@[simp] theorem outputs_cons (s : σ) (op : ι) (ops : List ι) :
    M.outputs s (op :: ops) = (M.step s op).2 :: M.outputs (M.step s op).1 ops := rfl

/-- The invariant rule: what every step preserves holds after every run. -/
theorem after_induction {motive : σ → Prop} {s : σ} (hinit : motive s)
    (hstep : ∀ s op, motive s → motive (M.step s op).1) (ops : List ι) :
    motive (M.after s ops) := by
  induction ops generalizing s with
  | nil => exact hinit
  | cons op ops ih => exact ih (hstep s op hinit)

/-- Two machines whose related states answer alike and step to related states. -/
structure Simulation (R : σ → τ → Prop) : Prop where
  output : ∀ {s t}, R s t → ∀ op, (M.step s op).2 = (N.step t op).2
  step : ∀ {s t}, R s t → ∀ op, R (M.step s op).1 (N.step t op).1

variable {M N} {R : σ → τ → Prop}

/-- Related states stay related along every run. -/
theorem Simulation.after (h : Simulation M N R) {s : σ} {t : τ} (hR : R s t) (ops : List ι) :
    R (M.after s ops) (N.after t ops) := by
  induction ops generalizing s t with
  | nil => exact hR
  | cons op ops ih => exact ih (h.step hR op)

/-- Related states answer every sequence of operations alike. -/
theorem Simulation.outputs (h : Simulation M N R) {s : σ} {t : τ} (hR : R s t)
    (ops : List ι) : M.outputs s ops = N.outputs t ops := by
  induction ops generalizing s t with
  | nil => rfl
  | cons op ops ih => rw [outputs_cons, outputs_cons, h.output hR op, ih (h.step hR op)]

end Machine

end TianmaCoder
