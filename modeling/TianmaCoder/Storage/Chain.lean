import TianmaCoder.Storage.Domain

/-!
# The write chain of a domain

Calls are numbered in the order they are made. Each of them has settled or waits for its turn
behind the earlier ones, and a teardown that begins waits for the last of them.

## Main definitions

* `Storage.Queued` — the invariant of the chain.

## Main results

* `Storage.Queued.pending_nil` — once the awaited link has settled, no call waits.
-/

namespace TianmaCoder

namespace Storage

variable {ν ε : Type}

namespace State

def settledIds (s : State ν ε) : List ℕ := s.settled.map Prod.fst

/-- The calls that have not settled, in the order of their turns. -/
def pending (s : State ν ε) : List ℕ :=
  (s.running.map Job.id).toList ++ s.chain.map Prod.fst

end State

/-- Calls are numbered, and each is settled or waits for its turn behind the earlier ones. The
call `held` is between two steps of the domain, neither on the chain nor settled. -/
structure Queued (s : State ν ε) (held : List ℕ) : Prop where
  sorted : (held ++ s.pending).Pairwise (· < ·)
  bound : ∀ id ∈ held ++ s.pending, id < s.requests.length
  last : ∀ id ∈ (held ++ s.pending).getLast?, s.tail = some id
  chained : ∀ e ∈ s.chain, s.requests[e.1]? = some e.2
  unsettled : ∀ id ∈ s.settledIds, id ∉ held ++ s.pending ∧ id < s.requests.length
  accounted : ∀ id < s.requests.length, id ∈ s.settledIds ∨ id ∈ held ++ s.pending
  awaits : ∀ d, s.disposal = some d → d.awaited = s.tail
  quiet : s.unit ≠ .opened → s.disposal.isSome ∧ held ++ s.pending = []
  refused : ∀ d, s.disposal = some d → d.since ≤ s.requests.length ∧
    ∀ id, d.since ≤ id → id < s.requests.length →
      (id, .error (.domain (closedError s.name))) ∈ s.settled
  reserved : (s.unit ≠ .closed → s.reserved = true) ∧ (.ok () ∈ s.openings → s.unit = .closed)

/-- The queue only depends on the calls that wait, not on where their jobs stand. -/
theorem Queued.congr {s t : State ν ε} {held held' : List ℕ} (h : Queued s held)
    (hpending : held' ++ t.pending = held ++ s.pending) (hrequests : t.requests = s.requests)
    (hsettled : t.settled = s.settled) (htail : t.tail = s.tail) (hchain : t.chain ⊆ s.chain)
    (hdisposal : t.disposal = s.disposal) (hunit : t.unit = s.unit) (hname : t.name = s.name)
    (hreserved : t.reserved = s.reserved) (hopenings : t.openings = s.openings) :
    Queued t held' where
  sorted := by rw [hpending]; exact h.sorted
  bound := by rw [hpending, hrequests]; exact h.bound
  last := by rw [hpending, htail]; exact h.last
  chained := by
    intro e he
    rw [hrequests]
    exact h.chained e (hchain he)
  unsettled := by
    unfold State.settledIds
    rw [hpending, hrequests, hsettled]
    exact h.unsettled
  accounted := by
    unfold State.settledIds
    rw [hpending, hrequests, hsettled]
    exact h.accounted
  awaits := by rw [hdisposal, htail]; exact h.awaits
  quiet := by rw [hunit, hdisposal, hpending]; exact h.quiet
  refused := by rw [hdisposal, hrequests, hsettled, hname]; exact h.refused
  reserved := by rw [hunit, hreserved, hopenings]; exact h.reserved

@[simp] theorem settledIds_settle (s : State ν ε) (id : ℕ) (r : Except (Failure ε) (Result ν)) :
    (s.settle id r).settledIds = s.settledIds ++ [id] := by
  simp [State.settledIds, State.settle]

/-- The call that is held settles. -/
theorem Queued.settle {s : State ν ε} {id : ℕ} (h : Queued s [id])
    (r : Except (Failure ε) (Result ν)) : Queued (s.settle id r) [] where
  sorted := (List.pairwise_cons.mp h.sorted).2
  bound := fun i hi => h.bound i (List.mem_cons_of_mem id hi)
  last := by
    intro i hi
    apply h.last i
    have hlast : s.pending.getLast? = some i := hi
    rw [List.getLast?_append, hlast]
    rfl
  chained := h.chained
  unsettled := by
    intro i hi
    have hpending : (s.settle id r).pending = s.pending := rfl
    rw [settledIds_settle, List.mem_append, List.mem_singleton] at hi
    rw [hpending, List.nil_append]
    rcases hi with hi | hi
    · have hun := h.unsettled i hi
      exact ⟨fun hmem => hun.1 (List.mem_cons_of_mem id hmem), hun.2⟩
    · subst i
      refine ⟨?_, h.bound id List.mem_cons_self⟩
      intro hmem
      have hlt := (List.pairwise_cons.mp h.sorted).1 id hmem
      omega
  accounted := by
    intro i hi
    rw [settledIds_settle, List.mem_append, List.mem_singleton]
    rcases h.accounted i hi with hs | hs
    · exact .inl (.inl hs)
    · rcases List.mem_cons.mp hs with rfl | hs
      · exact .inl (.inr rfl)
      · exact .inr hs
  awaits := h.awaits
  quiet := by
    intro hunit
    have hnil := (h.quiet hunit).2
    cases hnil
  refused := by
    intro d hd
    refine ⟨(h.refused d hd).1, fun i hi hlt => ?_⟩
    exact List.mem_append_left _ ((h.refused d hd).2 i hi hlt)
  reserved := h.reserved

/-- A call keeps its number when later ones are made. -/
theorem request_append {requests : List (Call ν ε)} {id : ℕ} {c c' : Call ν ε}
    (h : requests[id]? = some c) : (requests ++ [c'])[id]? = some c := by
  have hlt := (List.getElem?_eq_some_iff.mp h).1
  rw [List.getElem?_append_left hlt]
  exact h

theorem Queued.enqueue {s : State ν ε} {held : List ℕ} (h : Queued s held) (c : Call ν ε) :
    Queued (s.enqueue c) held := by
  by_cases hdisposed : s.disposal.isSome
  · have henqueue : s.enqueue c = { s with requests := s.requests ++ [c] }.settle
        s.requests.length (.error (.domain (closedError s.name))) := by
      simp [State.enqueue, hdisposed]
    rw [henqueue]
    refine ⟨h.sorted, ?_, h.last, ?_, ?_, ?_, h.awaits, h.quiet, ?_, h.reserved⟩
    · intro i hi
      have hlt := h.bound i hi
      simp only [State.settle, List.length_append, List.length_singleton]
      omega
    · intro e he
      exact request_append (h.chained e he)
    · intro i hi
      rw [settledIds_settle, List.mem_append, List.mem_singleton] at hi
      simp only [State.settle, List.length_append, List.length_singleton]
      rcases hi with hi | hi
      · have hun := h.unsettled i hi
        exact ⟨hun.1, by omega⟩
      · refine ⟨fun hmem => ?_, by omega⟩
        have hlt := h.bound i hmem
        omega
    · intro i hi
      rw [settledIds_settle, List.mem_append, List.mem_singleton]
      simp only [State.settle, List.length_append, List.length_singleton] at hi
      by_cases hnew : i = s.requests.length
      · exact .inl (.inr hnew)
      · exact (h.accounted i (by omega)).imp_left .inl
    · intro d hd
      have hrefused := h.refused d hd
      simp only [State.settle, List.length_append, List.length_singleton]
      refine ⟨by omega, fun i hi hlt => ?_⟩
      rw [List.mem_append, List.mem_singleton]
      by_cases hnew : i = s.requests.length
      · exact .inr (by rw [hnew])
      · exact .inl (hrefused.2 i hi (by omega))
  · have hnone : s.disposal = none := by simpa using hdisposed
    have henqueue : s.enqueue c = { s with
        requests := s.requests ++ [c]
        chain := s.chain ++ [(s.requests.length, c)]
        tail := some s.requests.length } := by
      simp [State.enqueue, hnone]
    have hpending : held ++ (s.enqueue c).pending = (held ++ s.pending) ++ [s.requests.length] := by
      simp [henqueue, State.pending]
    have hopened : s.unit = .opened := by
      by_contra hunit
      have hsome := (h.quiet hunit).1
      rw [hnone] at hsome
      cases hsome
    have hrequests : (s.enqueue c).requests = s.requests ++ [c] := by rw [henqueue]
    refine ⟨?_, ?_, ?_, ?_, ?_, ?_, ?_, ?_, ?_, ?_⟩
    · rw [hpending, List.pairwise_append]
      refine ⟨h.sorted, List.pairwise_singleton _ _, ?_⟩
      intro i hi next hnext
      rw [List.mem_singleton.mp hnext]
      exact h.bound i hi
    · intro i hi
      rw [hrequests, List.length_append, List.length_singleton]
      rw [hpending, List.mem_append, List.mem_singleton] at hi
      rcases hi with hi | hi
      · have hlt := h.bound i hi
        omega
      · omega
    · intro i hi
      rw [hpending, List.getLast?_append] at hi
      rw [henqueue]
      simpa using hi
    · intro e he
      rw [hrequests]
      rw [henqueue] at he
      rcases List.mem_append.mp he with he | he
      · exact request_append (h.chained e he)
      · rw [List.mem_singleton.mp he]
        simp
    · intro i hi
      have hsettled : (s.enqueue c).settledIds = s.settledIds := by rw [henqueue]; rfl
      rw [hsettled] at hi
      have hun := h.unsettled i hi
      rw [hpending, hrequests, List.mem_append, List.mem_singleton, List.length_append,
        List.length_singleton]
      refine ⟨?_, by omega⟩
      rintro (hmem | hmem)
      · exact hun.1 hmem
      · omega
    · intro i hi
      have hsettled : (s.enqueue c).settledIds = s.settledIds := by rw [henqueue]; rfl
      rw [hrequests, List.length_append, List.length_singleton] at hi
      rw [hsettled, hpending, List.mem_append, List.mem_singleton]
      by_cases hnew : i = s.requests.length
      · exact .inr (.inr hnew)
      · exact (h.accounted i (by omega)).imp_right .inl
    · intro d hd
      rw [henqueue] at hd
      exact absurd (hnone.symm.trans hd) (by simp)
    · intro hunit
      rw [henqueue] at hunit
      exact absurd hopened hunit
    · intro d hd
      rw [henqueue] at hd
      exact absurd (hnone.symm.trans hd) (by simp)
    · rw [henqueue]
      exact h.reserved

theorem Queued.close {s : State ν ε} {held : List ℕ} (h : Queued s held) : Queued s.close held := by
  by_cases hdisposed : s.disposal.isSome
  · have hclose : s.close = s := by simp [State.close, hdisposed]
    rw [hclose]
    exact h
  · have hclose : s.close = { s with disposal := some ⟨s.tail, s.requests.length⟩ } := by
      simp [State.close, hdisposed]
    rw [hclose]
    refine ⟨h.sorted, h.bound, h.last, h.chained, h.unsettled, h.accounted, ?_, ?_, ?_, h.reserved⟩
    · intro d hd
      cases hd
      rfl
    · intro hunit
      exact ⟨rfl, (h.quiet hunit).2⟩
    · intro d hd
      cases hd
      refine ⟨Nat.le_refl _, fun i hi hlt => ?_⟩
      simp only at hi hlt
      omega

/-- Once the link that the teardown waits for has settled, nothing waits on the chain. -/
theorem Queued.pending_nil {d : Disposal} (h : Queued s []) (hd : s.disposal = some d)
    (hdrained : s.drained d = true) : s.pending = [] := by
  by_contra hne
  have hlast := h.last (s.pending.getLast hne) (List.getLast?_eq_some_getLast hne)
  have hsettled : s.pending.getLast hne ∈ s.settledIds := by
    simpa [State.drained, h.awaits d hd, hlast, State.settledIds] using hdrained
  exact (h.unsettled _ hsettled).1 (List.getLast_mem hne)

end Storage

end TianmaCoder
