import Mathlib.Data.List.Basic
import TianmaCoder.Lib.OrderedMap

/-!
# Outstanding requests

A sequence of events in which an event may request keys and a later event may answer a key.
`outstanding` lists the requests that nothing after them answers, in request order; a tracker
that inserts every requested key into an ordered map and deletes every answered key holds
exactly the outstanding keys, in the same order (`Tracked`).

## Main definitions

* `outstanding` — the unanswered requests.
* `Tracked` — a duplicate-free list that follows the outstanding requests.
-/

namespace TianmaCoder

variable {ε κ : Type*}

/-- The requests of `events` that no later event answers. -/
def outstanding (requests : ε → List κ) (answers : ε → κ → Bool) : List ε → List κ
  | [] => []
  | event :: events =>
    (requests event).filter (fun k => !events.any fun later => answers later k)
      ++ outstanding requests answers events

namespace Outstanding

variable {requests : ε → List κ} {answers answers' : ε → κ → Bool}

/-- One more event answers what it answers and leaves its own requests outstanding. -/
theorem outstanding_snoc (events : List ε) (event : ε) :
    outstanding requests answers (events ++ [event])
      = (outstanding requests answers events).filter (fun k => !answers event k)
        ++ requests event := by
  induction events with
  | nil => simp [outstanding]
  | cons first events ih =>
    rw [List.cons_append, outstanding, outstanding, ih, List.filter_append, List.append_assoc,
      List.filter_filter]
    simp only [List.any_append, List.any_cons, List.any_nil, Bool.or_false, Bool.not_or]
    congr 2
    funext k
    exact Bool.and_comm _ _

theorem outstanding_sublist (h : ∀ event k, answers event k = true → answers' event k = true)
    (events : List ε) :
    (outstanding requests answers' events).Sublist (outstanding requests answers events) := by
  induction events with
  | nil => exact List.Sublist.refl _
  | cons event events ih =>
    refine List.Sublist.append ?_ ih
    refine List.monotone_filter_right _ fun k hk => ?_
    simp only [Bool.not_eq_true', List.any_eq_false] at hk ⊢
    exact fun later hmem hans => hk later hmem (h later k hans)

end Outstanding

/-- `keys` follows the outstanding requests: each once, in request order, none missing. -/
structure Tracked (keys requested : List κ) : Prop where
  nodup : keys.Nodup
  sublist : keys.Sublist requested
  complete : ∀ k ∈ requested, k ∈ keys

namespace Tracked

theorem nil : Tracked ([] : List κ) [] where
  nodup := List.nodup_nil
  sublist := List.Sublist.refl _
  complete := fun _ h => h

theorem mem_iff {keys requested : List κ} (h : Tracked keys requested) (k : κ) :
    k ∈ keys ↔ k ∈ requested := ⟨fun hk => h.sublist.subset hk, h.complete k⟩

/-- Answers remove the same keys from both. -/
theorem filter {keys requested : List κ} (h : Tracked keys requested) (p : κ → Bool) :
    Tracked (keys.filter p) (requested.filter p) where
  nodup := h.nodup.filter p
  sublist := h.sublist.filter p
  complete := fun k hk => by
    rw [List.mem_filter] at hk ⊢
    exact ⟨h.complete k hk.1, hk.2⟩

variable [DecidableEq κ]

/-- A request inserts its key unless it is held already. -/
theorem insert {keys requested : List κ} (h : Tracked keys requested) (k : κ) :
    Tracked (if k ∈ keys then keys else keys ++ [k]) (requested ++ [k]) := by
  by_cases hk : k ∈ keys
  · rw [if_pos hk]
    refine ⟨h.nodup, h.sublist.trans (List.sublist_append_left _ _), fun l hl => ?_⟩
    rcases List.mem_append.mp hl with hl | hl
    · exact h.complete l hl
    · rw [List.mem_singleton.mp hl]
      exact hk
  · rw [if_neg hk]
    refine ⟨?_, h.sublist.append (List.Sublist.refl _), fun l hl => ?_⟩
    · exact h.nodup.append (List.nodup_singleton k) (by simpa using hk)
    · rw [List.mem_append] at hl ⊢
      exact hl.imp_left (h.complete l)

theorem set_all {ν : Type*} {m : OrderedMap κ ν} {requested : List κ}
    (h : Tracked m.keys requested) (v : ν) (ks : List κ) :
    Tracked (ks.foldl (fun m k => OrderedMap.set k v m) m).keys (requested ++ ks) := by
  induction ks generalizing m requested with
  | nil => simpa using h
  | cons k ks ih =>
    have hset : Tracked (OrderedMap.set k v m).keys (requested ++ [k]) := by
      rw [OrderedMap.keys_set]
      exact h.insert k
    simpa using ih hset

end Tracked

end TianmaCoder
