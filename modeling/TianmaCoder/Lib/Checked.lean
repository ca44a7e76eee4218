import Mathlib.Data.List.Basic
import Mathlib.Data.List.Forall2
import Mathlib.Data.List.Induction
import Mathlib.Data.Nat.Notation

/-!
# Computations that may be refused

Rules for `Except`: when a sequence of checks is accepted, and what a checked loop over a
list establishes. A loop is `List.foldlM`; `foldlM_induction` is its invariant rule and
`foldlM_snoc` peels off the last iteration.
-/

namespace TianmaCoder.Checked

universe u v

variable {ε : Type u} {α β σ : Type v}

/-- A sequence is accepted when its first part is and the rest is on that value. -/
theorem bind_ok_iff (x : Except ε α) (f : α → Except ε β) (b : β) :
    (x >>= f) = .ok b ↔ ∃ a, x = .ok a ∧ f a = .ok b := by
  cases x with
  | error e => simp [bind, Except.bind]
  | ok a => simp [bind, Except.bind]

theorem bind_ok {x : Except ε α} {f : α → Except ε β} {b : β} (h : (x >>= f) = .ok b) :
    ∃ a, x = .ok a ∧ f a = .ok b :=
  (bind_ok_iff x f b).mp h

@[simp] theorem ok_bind (a : α) (f : α → Except ε β) : (Except.ok a >>= f) = f a := rfl
@[simp] theorem error_bind (e : ε) (f : α → Except ε β) :
    ((Except.error e : Except ε α) >>= f) = .error e := rfl
@[simp] theorem throw_eq (e : ε) : (throw e : Except ε α) = .error e := rfl
@[simp] theorem pure_eq (a : α) : (pure a : Except ε α) = .ok a := rfl

theorem guard_ok_iff (c : Prop) [Decidable c] (e : ε) (x : Except ε α) (a : α) :
    (if c then .error e else x) = .ok a ↔ ¬c ∧ x = .ok a := by
  by_cases h : c <;> simp [h]

theorem mapError_ok_iff {ε' : Type*} (f : ε → ε') (x : Except ε α) (a : α) :
    x.mapError f = .ok a ↔ x = .ok a := by
  cases x <;> simp [Except.mapError]

/-- A loop over a longer list runs the last iteration on the state reached before it. -/
theorem foldlM_snoc (f : σ → α → Except ε σ) (s : σ) (xs : List α) (x : α) :
    (xs ++ [x]).foldlM f s = (xs.foldlM f s >>= fun t => f t x) := by
  rw [List.foldlM_append]
  congr 1
  funext t
  simp only [List.foldlM_cons, List.foldlM_nil]
  cases f t x <;> rfl

variable {xs : List α} {s : σ} {f : σ → α → Except ε σ}

/-- The invariant rule: a property of the initial state that every accepted iteration
preserves holds of the final state. -/
theorem foldlM_induction {motive : List α → σ → Prop} {t : σ} (hrun : xs.foldlM f s = .ok t)
    (hinit : motive [] s)
    (hstep : ∀ pre x s₁ s₂, pre ++ [x] <+: xs → motive pre s₁ → f s₁ x = .ok s₂ → motive (pre ++ [x]) s₂) :
    motive xs t := by
  induction xs using List.reverseRecOn generalizing t with
  | nil =>
    cases hrun
    exact hinit
  | append_singleton xs x ih =>
    rw [foldlM_snoc, bind_ok_iff] at hrun
    obtain ⟨s₁, hpre, hlast⟩ := hrun
    refine hstep xs x s₁ t (List.prefix_refl _) (ih hpre ?_) hlast
    intro pre y s₂ s₃ hp
    exact hstep pre y s₂ s₃ (hp.trans (List.prefix_append xs [x]))

theorem foldlM_prefix_ok {t : σ} {ys : List α} (hrun : (xs ++ ys).foldlM f s = .ok t) :
    ∃ u, xs.foldlM f s = .ok u ∧ ys.foldlM f u = .ok t := by
  rw [List.foldlM_append, bind_ok_iff] at hrun
  exact hrun

theorem foldlM_error {e : ε} (hrun : xs.foldlM f s = .error e) :
    ∃ pre x t, pre ++ [x] <+: xs ∧ pre.foldlM f s = .ok t ∧ f t x = .error e := by
  induction xs using List.reverseRecOn with
  | nil => cases hrun
  | append_singleton xs x ih =>
    rw [foldlM_snoc] at hrun
    cases hpre : xs.foldlM f s with
    | ok t =>
      rw [hpre, ok_bind] at hrun
      exact ⟨xs, x, t, List.prefix_refl _, hpre, hrun⟩
    | error e' =>
      rw [hpre, error_bind] at hrun
      obtain ⟨pre, y, t, hp, hpre', hy⟩ := ih (hpre.trans hrun)
      exact ⟨pre, y, t, hp.trans (List.prefix_append xs [x]), hpre', hy⟩

/-- Loops whose iterations agree on the reached states agree. -/
theorem foldlM_congr {g : σ → α → Except ε σ} {motive : List α → σ → Prop} (hinit : motive [] s)
    (hstep : ∀ pre x s₁, pre ++ [x] <+: xs → motive pre s₁ → f s₁ x = g s₁ x)
    (hpres : ∀ pre x s₁ s₂, pre ++ [x] <+: xs → motive pre s₁ → f s₁ x = .ok s₂ → motive (pre ++ [x]) s₂) :
    xs.foldlM f s = xs.foldlM g s := by
  induction xs using List.reverseRecOn with
  | nil => rfl
  | append_singleton xs x ih =>
    have hsub : ∀ {pre : List α}, pre <+: xs → pre <+: xs ++ [x] :=
      fun hp => hp.trans (List.prefix_append xs [x])
    have heq : xs.foldlM f s = xs.foldlM g s :=
      ih (fun pre y s₁ hp => hstep pre y s₁ (hsub hp))
        (fun pre y s₁ s₂ hp => hpres pre y s₁ s₂ (hsub hp))
    rw [foldlM_snoc, foldlM_snoc, ← heq]
    cases hrun : xs.foldlM f s with
    | error e => rfl
    | ok t =>
      have ht : motive xs t :=
        foldlM_induction hrun hinit fun pre y s₁ s₂ hp => hpres pre y s₁ s₂ (hsub hp)
      exact hstep xs x t (List.prefix_refl _) ht

variable {ys : List β}

theorem forall₂_of_mapM {f : α → Except ε β} (h : xs.mapM f = .ok ys) :
    List.Forall₂ (fun x y => f x = .ok y) xs ys := by
  induction xs generalizing ys with
  | nil =>
    cases h
    exact .nil
  | cons x xs ih =>
    rw [List.mapM_cons, bind_ok_iff] at h
    obtain ⟨y, hy, hrest⟩ := h
    rw [bind_ok_iff] at hrest
    obtain ⟨ys', hys, hpure⟩ := hrest
    cases hpure
    exact .cons hy (ih hys)

theorem mapM_ok {f : α → Except ε β} {g : α → β} (h : ∀ x ∈ xs, f x = .ok (g x)) :
    xs.mapM f = .ok (xs.map g) := by
  induction xs with
  | nil => rfl
  | cons x xs ih =>
    rw [List.forall_mem_cons] at h
    rw [List.mapM_cons, h.1, ok_bind, ih h.2]
    rfl

/-- A `mapM` that decodes what was encoded. -/
theorem mapM_map_ok {f : β → Except ε α} {g : α → β} (h : ∀ x ∈ xs, f (g x) = .ok x) :
    (xs.map g).mapM f = .ok xs := by
  rw [List.mapM_map]
  have hid := mapM_ok (f := f ∘ g) (g := id) h
  rwa [List.map_id] at hid

/-- Two readings that agree on each accepted item and its result agree on the lists. -/
theorem map_eq_of_mapM {γ : Type*} {p : α → Except ε β} {f : α → γ} {g : β → γ}
    (h : xs.mapM p = .ok ys) (hfg : ∀ x y, p x = .ok y → f x = g y) : xs.map f = ys.map g := by
  have hitems := forall₂_of_mapM h
  clear h
  induction hitems with
  | nil => rfl
  | cons hxy _ ih => rw [List.map_cons, List.map_cons, hfg _ _ hxy, ih]

/-- A loop over a concatenation of lists runs each of them. -/
theorem foldlM_flatMap {f : σ → β → Except ε σ} {expand : α → List β} :
    (xs.flatMap expand).foldlM f s = xs.foldlM (fun t x => (expand x).foldlM f t) s := by
  induction xs generalizing s with
  | nil => rfl
  | cons x xs ih =>
    rw [List.flatMap_cons, List.foldlM_append, List.foldlM_cons]
    congr 1
    funext t
    exact ih

section Any

variable {γ δ : Type*}

theorem anyM_append {p : γ → Except ε Bool} {xs ys : List γ} :
    (xs ++ ys).anyM p = (do if ← xs.anyM p then pure true else ys.anyM p) := by
  induction xs with
  | nil => rfl
  | cons x xs ih =>
    rw [List.cons_append, List.anyM, List.anyM]
    cases p x with
    | error e => rfl
    | ok found => cases found <;> simp [ih]

theorem anyM_flatMap {p : δ → Except ε Bool} {expand : γ → List δ} {xs : List γ} :
    (xs.flatMap expand).anyM p = xs.anyM fun x => (expand x).anyM p := by
  induction xs with
  | nil => rfl
  | cons x xs ih =>
    rw [List.flatMap_cons, anyM_append, List.anyM, ih]
    cases (expand x).anyM p with
    | error e => rfl
    | ok found => cases found <;> rfl

theorem anyM_map {p : δ → Except ε Bool} {f : γ → δ} {xs : List γ} :
    (xs.map f).anyM p = xs.anyM fun x => p (f x) := by
  induction xs with
  | nil => rfl
  | cons x xs ih => rw [List.map_cons, List.anyM, List.anyM, ih]

theorem anyM_ok {p : γ → Except ε Bool} (q : γ → Bool) {xs : List γ}
    (h : ∀ x ∈ xs, p x = .ok (q x)) : xs.anyM p = .ok (xs.any q) := by
  induction xs with
  | nil => rfl
  | cons x xs ih =>
    rw [List.anyM, h x List.mem_cons_self, ih fun y hy => h y (List.mem_cons_of_mem _ hy)]
    cases hx : q x <;> simp [hx]

end Any

theorem filterMapM_ok {f : α → Except ε (Option β)} (g : α → Option β)
    (h : ∀ x ∈ xs, f x = .ok (g x)) : xs.filterMapM f = .ok (xs.filterMap g) := by
  induction xs with
  | nil => rfl
  | cons x xs ih =>
    rw [List.filterMapM_cons, h x List.mem_cons_self, ok_bind,
      ih fun y hy => h y (List.mem_cons_of_mem x hy), List.filterMap_cons]
    cases g x <;> rfl

theorem forall₂_exists_left {R : α → β → Prop} (h : List.Forall₂ R xs ys) {y : β} (hy : y ∈ ys) :
    ∃ x ∈ xs, R x y := by
  induction h with
  | nil => cases hy
  | cons hhead _ ih =>
    rcases List.mem_cons.mp hy with heq | hy
    · subst heq
      exact ⟨_, List.mem_cons_self, hhead⟩
    · obtain ⟨x, hx, hr⟩ := ih hy
      exact ⟨x, List.mem_cons_of_mem _ hx, hr⟩

theorem forall₂_exists_right {R : α → β → Prop} (h : List.Forall₂ R xs ys) {x : α} (hx : x ∈ xs) :
    ∃ y ∈ ys, R x y :=
  forall₂_exists_left h.flip hx

/-- Every iteration of a loop starts from a state in which `ok` admits its item. -/
def Guarded (f : σ → α → Except ε σ) (ok : σ → α → Prop) (s : σ) : List α → Prop
  | [] => True
  | x :: xs => ok s x ∧ ∀ t, f s x = .ok t → Guarded f ok t xs

/-- A guarded loop over a concatenation is guarded on both parts. -/
theorem guarded_append {ok : σ → α → Prop} {t : σ} {ys : List α} (hrun : xs.foldlM f s = .ok t) :
    Guarded f ok s (xs ++ ys) ↔ Guarded f ok s xs ∧ Guarded f ok t ys := by
  induction xs generalizing s with
  | nil =>
    cases hrun
    simp [Guarded]
  | cons x xs ih =>
    rw [List.foldlM_cons, bind_ok_iff] at hrun
    obtain ⟨u, hu, hrest⟩ := hrun
    rw [List.cons_append, Guarded, Guarded, and_assoc]
    refine and_congr_right fun _ => ?_
    constructor
    · intro h
      have hsplit := (ih hrest).mp (h u hu)
      refine ⟨fun u' hu' => ?_, hsplit.2⟩
      rw [hu, Except.ok.injEq] at hu'
      exact hu' ▸ hsplit.1
    · rintro ⟨hxs, hys⟩ u' hu'
      rw [hu, Except.ok.injEq] at hu'
      exact hu' ▸ (ih hrest).mpr ⟨hxs u hu, hys⟩

/-- Some loop leads from `s` to `t`, and its iterations are guarded exactly when `P`. -/
def GuardedPath (f : σ → α → Except ε σ) (ok : σ → α → Prop) (s t : σ) (P : Prop) : Prop :=
  ∃ xs : List α, xs.foldlM f s = .ok t ∧ (Guarded f ok s xs ↔ P)

namespace GuardedPath

variable {f : σ → α → Except ε σ} {ok : σ → α → Prop} {s t u : σ} {P Q : Prop}

theorem refl : GuardedPath f ok s s True := ⟨[], rfl, by simp [Guarded]⟩

theorem single {x : α} (h : f s x = .ok t) : GuardedPath f ok s t (ok s x) := by
  refine ⟨[x], ?_, ?_⟩
  · rw [List.foldlM_cons, h]
    rfl
  · simp [Guarded]

theorem trans (h : GuardedPath f ok s t P) (h' : GuardedPath f ok t u Q) : GuardedPath f ok s u (P ∧ Q) := by
  obtain ⟨xs, hxs, hP⟩ := h
  obtain ⟨ys, hys, hQ⟩ := h'
  refine ⟨xs ++ ys, ?_, ?_⟩
  · rw [List.foldlM_append, hxs]
    exact hys
  · rw [guarded_append hxs, hP, hQ]

theorem congr (h : GuardedPath f ok s t P) (hPQ : P ↔ Q) : GuardedPath f ok s t Q := by
  obtain ⟨xs, hxs, hP⟩ := h
  exact ⟨xs, hxs, hP.trans hPQ⟩

end GuardedPath

/-- Under an invariant, a property that each iteration keeps exactly when it is guarded
holds after a loop exactly when it held before and the loop is guarded. -/
theorem foldlM_iff_guarded {ok : σ → α → Prop} {inv good : σ → Prop}
    (hinv : ∀ s x t, inv s → f s x = .ok t → inv t)
    (hgood : ∀ s x t, inv s → f s x = .ok t → (good t ↔ good s ∧ ok s x)) {t : σ} (hs : inv s)
    (hrun : xs.foldlM f s = .ok t) : inv t ∧ (good t ↔ good s ∧ Guarded f ok s xs) := by
  induction xs generalizing s with
  | nil =>
    cases hrun
    simp [Guarded, hs]
  | cons x xs ih =>
    rw [List.foldlM_cons, bind_ok_iff] at hrun
    obtain ⟨u, hu, hrest⟩ := hrun
    have hguarded : (∀ u', f s x = .ok u' → Guarded f ok u' xs) ↔ Guarded f ok u xs := by
      rw [hu]
      simp
    have ⟨ht, hiff⟩ := ih (hinv s x u hs hu) hrest
    refine ⟨ht, ?_⟩
    rw [hiff, hgood s x u hs hu, Guarded, hguarded, and_assoc]

end TianmaCoder.Checked
