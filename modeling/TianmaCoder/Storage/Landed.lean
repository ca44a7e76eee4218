import TianmaCoder.Storage.Chain

/-!
# The landed writes of a domain

Memory is the fold of the landed writes, and each of them was decided on what the earlier ones
left. Every action of the domain, its backend and its callers keeps this.

## Main definitions

* `Storage.Answered` — how a call that took its turn settles.
* `Storage.Explained`, `Storage.Inv` — the invariant of a domain.

## Main results

* `Storage.inv_step` — every action keeps the invariant.
-/

namespace TianmaCoder

namespace Storage

variable {ν ε : Type}

namespace State

def landedIds (s : State ν ε) : List ℕ := s.landed.map Prod.fst

/-- What the writes of the calls before the call `id` left in memory. -/
def before (o : Opening ν) (s : State ν ε) (id : ℕ) : Contents ν :=
  o.contents.applyAll ((s.landed.filter fun l => l.1 < id).map Prod.snd)

/-- What the medium holds: memory, and the write that has just become durable. -/
def durable (s : State ν ε) : Contents ν :=
  match s.running with
  | some j => if j.landed then s.memory.apply j.write else s.memory
  | none => s.memory

end State

/-- A call rejects because the teardown had begun when it was made. -/
def refusal (o : Opening ν) : Except (Failure ε) (Result ν) :=
  .error (.domain (closedError o.name))

/-- How a call that took its turn settles: with what it decides on what the earlier calls left,
its write landed, or with the failure of that decision, or of the write it decided on. -/
def Answered (o : Opening ν) (s : State ν ε) (id : ℕ) (r : Except (Failure ε) (Result ν)) : Prop :=
  ∃ c, s.requests[id]? = some c ∧
    match r with
    | .ok v => ∃ w, c.job o.name (s.before o id) = .ok (w, v) ∧
        ∀ w', w = some w' ↔ (id, w') ∈ s.landed
    | .error e => c.job o.name (s.before o id) = .error e ∨
        ∃ w v, c.job o.name (s.before o id) = .ok (some w, v)

/-- The landed writes explain memory, the medium, the events and the fulfilled calls. -/
structure Explained (o : Opening ν) (s : State ν ε) (held : List ℕ) : Prop where
  name : s.name = o.name
  memory : s.memory = o.contents.applyAll (s.landed.map Prod.snd)
  medium : s.medium.Holds s.durable o.contents.global
  inOrder : s.landedIds.Pairwise (· < ·)
  landed_lt : ∀ id ∈ s.landedIds, (∀ next ∈ s.pending, id < next) ∧ id < s.requests.length
  done_lt : ∀ id r, (id, r) ∈ s.settled → r ≠ refusal o → ∀ next ∈ held ++ s.pending, id < next
  decided : ∀ id w, (id, w) ∈ s.landed → ∃ c r, s.requests[id]? = some c ∧
    c.job o.name (s.before o id) = .ok (some w, r)
  running : ∀ j, s.running = some j → ∃ c, s.requests[j.id]? = some c ∧
    c.job o.name s.memory = .ok (some j.write, j.result)
  answered : ∀ id r, (id, r) ∈ s.settled → r ≠ refusal o → Answered o s id r
  announced : List.Forall₂ (fun e (l : ℕ × Write ν) => e.1 = l.2.change o.name ∧ l.2.VisibleIn e.2)
    s.events s.landed

section

variable {o : Opening ν} {s : State ν ε} {held : List ℕ}

variable {id : ℕ}

theorem before_of_lt (h : ∀ i ∈ s.landedIds, i < id) :
    s.before o id = o.contents.applyAll (s.landed.map Prod.snd) := by
  unfold State.before
  congr 2
  apply List.filter_eq_self.mpr
  intro l hl
  exact decide_eq_true (h l.1 (List.mem_map_of_mem hl))

variable {t : State ν ε}

/-- A write that lands later leaves what an earlier call saw. -/
theorem before_congr {l : ℕ × Write ν} (hle : id ≤ l.1) (hlanded : t.landed = s.landed ++ [l]) :
    t.before o id = s.before o id := by
  have hnot : ¬l.1 < id := by omega
  unfold State.before
  rw [hlanded, List.filter_append]
  simp [hnot]

theorem Explained.enqueue (h : Explained o s held) (hq : Queued s held) (c : Call ν ε) :
    Explained o (s.enqueue c) held := by
  have hrequests : (s.enqueue c).requests = s.requests ++ [c] := by
    unfold State.enqueue
    split <;> rfl
  have hsame : (s.enqueue c).landed = s.landed ∧ (s.enqueue c).memory = s.memory ∧
      (s.enqueue c).medium = s.medium ∧ (s.enqueue c).running = s.running ∧
      (s.enqueue c).events = s.events ∧ (s.enqueue c).name = s.name := by
    unfold State.enqueue
    split <;> exact ⟨rfl, rfl, rfl, rfl, rfl, rfl⟩
  obtain ⟨hlanded, hmemory, hmedium, hrunning, hevents, hname⟩ := hsame
  have hlater : ∀ next ∈ (s.enqueue c).pending, next ∈ s.pending ∨ next = s.requests.length := by
    intro next hnext
    unfold State.enqueue at hnext
    split at hnext
    · exact .inl hnext
    · have hmem : next ∈ s.pending ++ [s.requests.length] := by
        simpa [State.pending] using hnext
      simpa using hmem
  have hanswered : ∀ id r, (id, r) ∈ (s.enqueue c).settled → r ≠ refusal o →
      (id, r) ∈ s.settled := by
    intro id r hmem hr
    unfold State.enqueue at hmem
    split at hmem
    · rcases List.mem_append.mp hmem with hmem | hmem
      · exact hmem
      · have heq := (Prod.mk.inj (List.mem_singleton.mp hmem)).2
        rw [h.name] at heq
        exact absurd heq hr
    · exact hmem
  have hbefore : ∀ id, (s.enqueue c).before o id = s.before o id := by
    intro id
    simp only [State.before, hlanded]
  have hlandedIds : (s.enqueue c).landedIds = s.landedIds := by simp only [State.landedIds, hlanded]
  refine ⟨?_, ?_, ?_, ?_, ?_, ?_, ?_, ?_, ?_, ?_⟩
  · rw [hname]
    exact h.name
  · rw [hmemory, hlanded]
    exact h.memory
  · simpa only [State.durable, hmedium, hmemory, hrunning] using h.medium
  · rw [hlandedIds]
    exact h.inOrder
  · intro id hid
    rw [hlandedIds] at hid
    have hlt := h.landed_lt id hid
    rw [hrequests, List.length_append, List.length_singleton]
    refine ⟨fun next hnext => ?_, by omega⟩
    rcases hlater next hnext with hold | rfl
    · exact hlt.1 next hold
    · exact hlt.2
  · intro id r hid hr next hnext
    have hold := hanswered id r hid hr
    have hbound := (hq.unsettled id (List.mem_map_of_mem hold)).2
    rcases List.mem_append.mp hnext with hheld | hnext
    · exact h.done_lt id r hold hr next (List.mem_append_left _ hheld)
    · rcases hlater next hnext with hpending | rfl
      · exact h.done_lt id r hold hr next (List.mem_append_right _ hpending)
      · exact hbound
  · intro id w hid
    rw [hlanded] at hid
    obtain ⟨c', r, hc', hjob⟩ := h.decided id w hid
    rw [hrequests, hbefore]
    exact ⟨c', r, request_append hc', hjob⟩
  · intro j hj
    rw [hrunning] at hj
    obtain ⟨c', hc', hjob⟩ := h.running j hj
    rw [hrequests, hmemory]
    exact ⟨c', request_append hc', hjob⟩
  · intro id r hid hr
    obtain ⟨c', hc', hjob⟩ := h.answered id r (hanswered id r hid hr) hr
    unfold Answered
    rw [hrequests, hbefore, hlanded]
    exact ⟨c', request_append hc', hjob⟩
  · rw [hevents, hlanded]
    exact h.announced

/-- What is known of a call whose write has landed, before it settles. -/
def Served (o : Opening ν) (s : State ν ε) (j : Job ν) : Prop :=
  ∃ c, s.requests[j.id]? = some c ∧
    c.job o.name (s.before o j.id) = .ok (some j.write, j.result) ∧
    ∀ w, j.write = w ↔ (j.id, w) ∈ s.landed

variable {j : Job ν}

theorem Served.ok (h : Served o s j) : Answered o s j.id (.ok j.result) := by
  obtain ⟨c, hc, hjob, hw⟩ := h
  refine ⟨c, hc, some j.write, hjob, fun w => ?_⟩
  rw [Option.some.injEq]
  exact hw w

theorem Served.error (h : Served o s j) (e : Failure ε) : Answered o s j.id (.error e) := by
  obtain ⟨c, hc, hjob, -⟩ := h
  exact ⟨c, hc, .inr ⟨j.write, j.result, hjob⟩⟩

theorem Explained.settle (h : Explained o s [id]) (hq : Queued s [id])
    {r : Except (Failure ε) (Result ν)} (hanswered : Answered o s id r) :
    Explained o (s.settle id r) [] where
  name := h.name
  memory := h.memory
  medium := h.medium
  inOrder := h.inOrder
  landed_lt := h.landed_lt
  done_lt := by
    intro i v hi hv next hnext
    rcases List.mem_append.mp hi with hi | hi
    · exact h.done_lt i v hi hv next (List.mem_cons_of_mem id hnext)
    · have heq := List.mem_singleton.mp hi
      rw [(Prod.mk.inj heq).1]
      exact (List.pairwise_cons.mp hq.sorted).1 next hnext
  decided := h.decided
  running := h.running
  answered := by
    intro i v hi hv
    rcases List.mem_append.mp hi with hi | hi
    · exact h.answered i v hi hv
    · have heq := Prod.mk.inj (List.mem_singleton.mp hi)
      rw [heq.1, heq.2]
      exact hanswered
  announced := h.announced

/-- The queue and its explanation together. -/
structure Inv (o : Opening ν) (s : State ν ε) (held : List ℕ) : Prop where
  queued : Queued s held
  explained : Explained o s held

theorem inv_domain (o : Opening ν) : Inv o (o.domain ε) [] where
  queued := by
    constructor <;> simp [Opening.domain, State.pending, State.settledIds]
  explained := by
    constructor <;>
      simp [Opening.domain, State.pending, State.landedIds, State.durable, o.loaded]

theorem Inv.enqueue (h : Inv o s held) (c : Call ν ε) : Inv o (s.enqueue c) held :=
  ⟨h.queued.enqueue c, h.explained.enqueue h.queued c⟩

theorem Inv.close (h : Inv o s held) : Inv o s.close held := by
  refine ⟨h.queued.close, ?_⟩
  have he := h.explained
  unfold State.close
  split
  · exact he
  · exact ⟨he.name, he.memory, he.medium, he.inOrder, he.landed_lt, he.done_lt, he.decided,
      he.running, he.answered, he.announced⟩

theorem Inv.settle (h : Inv o s [id]) {r : Except (Failure ε) (Result ν)}
    (hanswered : Answered o s id r) : Inv o (s.settle id r) [] :=
  ⟨h.queued.settle r, h.explained.settle h.queued hanswered⟩

variable {r : Request ν ε}

theorem Inv.request (h : Inv o s held) (hr : s.request r = some t) : Inv o t held := by
  cases r with
  | write c =>
    by_cases hdeclared : c.declared s.memory
    · simp only [State.request, hdeclared, if_true, Option.some.injEq] at hr
      rw [← hr]
      exact h.enqueue c
    · simp [State.request, hdeclared] at hr
  | close =>
    cases hr
    exact h.close

variable {c : Call ν ε}

/-- A job takes its turn. -/
theorem Inv.begins {rest : List (ℕ × Call ν ε)} (h : Inv o s []) (hrunning : s.running = none)
    (hchain : s.chain = (id, c) :: rest) : Inv o { s with chain := rest } [id] := by
  have hpending : [id] ++ ({ s with chain := rest } : State ν ε).pending = [] ++ s.pending := by
    simp [State.pending, hrunning, hchain]
  refine ⟨h.queued.congr hpending rfl rfl rfl ?_ rfl rfl rfl rfl rfl, ?_⟩
  · rw [hchain]
    exact List.subset_cons_self _ _
  · have he := h.explained
    refine ⟨he.name, he.memory, he.medium, he.inOrder, ?_, ?_, he.decided, he.running,
      he.answered, he.announced⟩
    · intro i hi
      refine ⟨fun next hnext => (he.landed_lt i hi).1 next ?_, (he.landed_lt i hi).2⟩
      have hmem : next ∈ [id] ++ ({ s with chain := rest } : State ν ε).pending :=
        List.mem_append_right _ hnext
      rwa [hpending] at hmem
    · intro i r hi hr next hnext
      rw [hpending] at hnext
      exact he.done_lt i r hi hr next hnext

/-- The job that took its turn issues its write. -/
theorem Inv.runs {w : Write ν} {r : Result ν} (h : Inv o s [id]) (hrunning : s.running = none)
    (hjob : ∃ c, s.requests[id]? = some c ∧ c.job o.name s.memory = .ok (some w, r))
    (hlt : ∀ i ∈ s.landedIds, i < id) : Inv o { s with running := some ⟨id, w, r, false⟩ } [] := by
  have hpending : ({ s with running := some ⟨id, w, r, false⟩ } : State ν ε).pending =
      id :: s.pending := by
    simp [State.pending, hrunning]
  have he := h.explained
  refine ⟨h.queued.congr ?_ rfl rfl rfl (fun _ h => h) rfl rfl rfl rfl rfl, ?_⟩
  · rw [hpending]
    rfl
  · refine ⟨he.name, he.memory, ?_, he.inOrder, ?_, ?_, he.decided, ?_, he.answered, he.announced⟩
    · have hmedium := he.medium
      simp only [State.durable, hrunning] at hmedium
      exact hmedium
    · intro i hi
      refine ⟨?_, (he.landed_lt i hi).2⟩
      rw [hpending]
      intro next hnext
      rcases List.mem_cons.mp hnext with rfl | hnext
      · exact hlt i hi
      · exact (he.landed_lt i hi).1 next hnext
    · rw [hpending]
      exact he.done_lt
    · intro j hj
      cases hj
      exact hjob

theorem start_error {e : Failure ε} (h : c.job s.name s.memory = .error e) :
    s.start id c = s.settle id (.error e) := by
  rw [State.start, h]

theorem start_read {r : Result ν} (h : c.job s.name s.memory = .ok (none, r)) :
    s.start id c = s.settle id (.ok r) := by
  rw [State.start, h]

theorem start_write {w : Write ν} {r : Result ν} (h : c.job s.name s.memory = .ok (some w, r)) :
    s.start id c = { s with running := some ⟨id, w, r, false⟩ } := by
  rw [State.start, h]

/-- The job that took its turn is decided on what the earlier calls left. -/
theorem Inv.start (h : Inv o s [id]) (hrunning : s.running = none) (hc : s.requests[id]? = some c)
    (hlt : ∀ i ∈ s.landedIds, i < id) : Inv o (s.start id c) [] := by
  have he := h.explained
  have hmemory : s.before o id = s.memory := by rw [before_of_lt hlt, he.memory]
  have hname : c.job s.name s.memory = c.job o.name s.memory := by rw [he.name]
  cases hjob : c.job o.name s.memory with
  | error e =>
    rw [start_error (hname.trans hjob)]
    apply h.settle
    refine ⟨c, hc, .inl ?_⟩
    rw [hmemory]
    exact hjob
  | ok decision =>
    obtain ⟨w, r⟩ := decision
    cases w with
    | none =>
      rw [start_read (hname.trans hjob)]
      apply h.settle
      refine ⟨c, hc, none, ?_, fun w' => ?_⟩
      · rw [hmemory]
        exact hjob
      · constructor
        · intro hw
          cases hw
        · intro hmem
          have hself := hlt id (List.mem_map_of_mem hmem)
          omega
    | some w =>
      rw [start_write (hname.trans hjob)]
      exact h.runs hrunning ⟨c, hc, hjob⟩ hlt

/-- The durable write reaches memory. -/
theorem Inv.commit (h : Inv o s []) (hrunning : s.running = some j) (hlanded : j.landed = true) :
    Inv o (s.commit j) [j.id] ∧ Served o (s.commit j) j := by
  have he := h.explained
  have hpending : s.pending = j.id :: (s.commit j).pending := by
    simp [State.pending, State.commit, hrunning]
  have hlt : ∀ i ∈ s.landedIds, i < j.id := by
    intro i hi
    apply (he.landed_lt i hi).1
    rw [hpending]
    exact List.mem_cons_self
  have hids : (s.commit j).landedIds = s.landedIds ++ [j.id] := by
    simp [State.landedIds, State.commit]
  have hnew : (s.commit j).landed = s.landed ++ [(j.id, j.write)] := rfl
  have hsorted : ∀ next ∈ (s.commit j).pending, j.id < next := by
    have hs := h.queued.sorted
    rw [List.nil_append, hpending] at hs
    exact (List.pairwise_cons.mp hs).1
  have hbound : j.id < s.requests.length := by
    apply h.queued.bound
    rw [List.nil_append, hpending]
    exact List.mem_cons_self
  have hself : (s.commit j).before o j.id = s.memory := by
    rw [before_congr (Nat.le_refl _) hnew, before_of_lt hlt, he.memory]
  have hearlier : ∀ i ∈ s.landedIds, (s.commit j).before o i = s.before o i := by
    intro i hi
    exact before_congr (Nat.le_of_lt (hlt i hi)) hnew
  obtain ⟨c, hc, hjob⟩ := he.running j hrunning
  have hdone : ∀ i r, (i, r) ∈ s.settled → r ≠ refusal o → i < j.id := by
    intro i r hi hr
    apply he.done_lt i r hi hr
    rw [List.nil_append, hpending]
    exact List.mem_cons_self
  refine ⟨⟨h.queued.congr ?_ rfl rfl rfl (fun _ h => h) rfl rfl rfl rfl rfl, ?_⟩, ?_⟩
  · rw [hpending]
    rfl
  · refine ⟨he.name, ?_, ?_, ?_, ?_, ?_, ?_, ?_, ?_, ?_⟩
    · rw [hnew, List.map_append, List.map_singleton, Contents.applyAll_concat, ← he.memory]
      rfl
    · have hmedium := he.medium
      simp only [State.durable, hrunning, hlanded, if_true] at hmedium
      exact hmedium
    · rw [hids, List.pairwise_append]
      refine ⟨he.inOrder, List.pairwise_singleton _ _, ?_⟩
      intro i hi next hnext
      rw [List.mem_singleton.mp hnext]
      exact hlt i hi
    · intro i hi
      rw [hids, List.mem_append, List.mem_singleton] at hi
      rcases hi with hi | rfl
      · refine ⟨fun next hnext => ?_, (he.landed_lt i hi).2⟩
        apply (he.landed_lt i hi).1
        rw [hpending]
        exact List.mem_cons_of_mem _ hnext
      · exact ⟨hsorted, hbound⟩
    · intro i r hi hr next hnext
      apply he.done_lt i r hi hr
      rw [List.nil_append, hpending]
      exact hnext
    · intro i w hi
      rw [hnew, List.mem_append, List.mem_singleton] at hi
      rcases hi with hi | hi
      · obtain ⟨c', r, hc', hjob'⟩ := he.decided i w hi
        rw [hearlier i (List.mem_map_of_mem hi)]
        exact ⟨c', r, hc', hjob'⟩
      · cases hi
        rw [hself]
        exact ⟨c, j.result, hc, hjob⟩
    · intro j' hj'
      cases hj'
    · intro i r hi hr
      have hi' := hdone i r hi hr
      obtain ⟨c', hc', hjob'⟩ := he.answered i r hi hr
      have hstill : ∀ w, (i, w) ∈ (s.commit j).landed ↔ (i, w) ∈ s.landed := by
        intro w
        rw [hnew, List.mem_append, List.mem_singleton]
        refine or_iff_left fun heq => ?_
        have hid := (Prod.mk.inj heq).1
        omega
      refine ⟨c', hc', ?_⟩
      rw [before_congr (Nat.le_of_lt hi') hnew]
      cases r with
      | error e => exact hjob'
      | ok v =>
        obtain ⟨w, hv, hw⟩ := hjob'
        exact ⟨w, hv, fun w' => (hw w').trans (hstill w').symm⟩
    · exact List.rel_append he.announced (.cons ⟨by rw [he.name], j.write.visibleIn_apply _⟩ .nil)
  · refine ⟨c, hc, ?_, fun w => ?_⟩
    · rw [hself]
      exact hjob
    · rw [hnew, List.mem_append, List.mem_singleton]
      constructor
      · rintro rfl
        exact .inr rfl
      · rintro (hmem | heq)
        · have hself := hlt j.id (List.mem_map_of_mem hmem)
          omega
        · exact (Prod.mk.inj heq).2.symm

/-- The backend makes the write of the running job durable. -/
theorem Inv.land (h : Inv o s []) (hrunning : s.running = some j) (hlanded : j.landed = false) :
    Inv o { s with medium := s.medium.apply j.write, running := some { j with landed := true } }
      [] := by
  have he := h.explained
  have hpending : ({ s with
      medium := s.medium.apply j.write
      running := some { j with landed := true } } : State ν ε).pending = s.pending := by
    simp [State.pending, hrunning]
  refine ⟨h.queued.congr ?_ rfl rfl rfl (fun _ h => h) rfl rfl rfl rfl rfl, ?_⟩
  · rw [hpending]
  · refine ⟨he.name, he.memory, ?_, he.inOrder, ?_, ?_, he.decided, ?_, he.answered, he.announced⟩
    · have hmedium := he.medium
      simp only [State.durable, hrunning, hlanded] at hmedium
      exact hmedium.apply j.write
    · rw [hpending]
      exact he.landed_lt
    · rw [hpending]
      exact he.done_lt
    · intro j' hj'
      cases hj'
      exact he.running j hrunning

/-- The running job loses its write. -/
theorem Inv.drop (h : Inv o s []) (hrunning : s.running = some j) (hlanded : j.landed = false)
    (e : Failure ε) : Inv o { s with running := none } [j.id] ∧
      Answered o { s with running := none } j.id (.error e) := by
  have he := h.explained
  have hpending : s.pending = j.id :: ({ s with running := none } : State ν ε).pending := by
    simp [State.pending, hrunning]
  obtain ⟨c, hc, hjob⟩ := he.running j hrunning
  have hlt : ∀ i ∈ s.landedIds, i < j.id := by
    intro i hi
    apply (he.landed_lt i hi).1
    rw [hpending]
    exact List.mem_cons_self
  have hmemory : ({ s with running := none } : State ν ε).before o j.id = s.memory := by
    rw [he.memory]
    exact before_of_lt hlt
  refine ⟨⟨h.queued.congr ?_ rfl rfl rfl (fun _ h => h) rfl rfl rfl rfl rfl, ?_⟩, ?_⟩
  · rw [hpending]
    rfl
  · refine ⟨he.name, he.memory, ?_, he.inOrder, ?_, ?_, he.decided, ?_, he.answered, he.announced⟩
    · have hmedium := he.medium
      simp only [State.durable, hrunning, hlanded] at hmedium
      exact hmedium
    · intro i hi
      refine ⟨fun next hnext => ?_, (he.landed_lt i hi).2⟩
      apply (he.landed_lt i hi).1
      rw [hpending]
      exact List.mem_cons_of_mem _ hnext
    · intro i r hi hr next hnext
      apply he.done_lt i r hi hr
      rw [List.nil_append, hpending]
      exact hnext
    · intro j' hj'
      cases hj'
  · refine ⟨c, hc, .inr ⟨j.write, j.result, ?_⟩⟩
    rw [hmemory]
    exact hjob

theorem requests_request (hr : s.request r = some t) :
    t.landed = s.landed ∧ (t.requests = s.requests ∨ ∃ c, t.requests = s.requests ++ [c]) := by
  cases r with
  | write c =>
    by_cases hdeclared : c.declared s.memory
    · simp only [State.request, hdeclared, if_true, Option.some.injEq] at hr
      rw [← hr]
      unfold State.enqueue
      split <;> exact ⟨rfl, .inr ⟨c, rfl⟩⟩
    · simp [State.request, hdeclared] at hr
  | close =>
    cases hr
    unfold State.close
    split <;> exact ⟨rfl, .inl rfl⟩

/-- A call that a listener makes leaves what is known of the announced one. -/
theorem Served.request (h : Served o s j) (hr : s.request r = some t) : Served o t j := by
  have hsame := requests_request hr
  obtain ⟨c, hc, hjob, hw⟩ := h
  have hbefore : t.before o j.id = s.before o j.id := by simp only [State.before, hsame.1]
  refine ⟨c, ?_, ?_, ?_⟩
  · rcases hsame.2 with hreq | ⟨c', hreq⟩
    · rw [hreq]
      exact hc
    · rw [hreq]
      exact request_append hc
  · rw [hbefore]
    exact hjob
  · rw [hsame.1]
    exact hw

/-- The calls that the listeners of one event make. -/
theorem Inv.heard {calls : List (Request ν ε)} (h : Inv o s [j.id]) (hserved : Served o s j)
    (hcalls : calls.foldlM State.request s = some t) : Inv o t [j.id] ∧ Served o t j := by
  induction calls generalizing s with
  | nil =>
    cases hcalls
    exact ⟨h, hserved⟩
  | cons r calls ih =>
    rw [List.foldlM_cons] at hcalls
    obtain ⟨u, hu, hrest⟩ := Option.bind_eq_some_iff.mp hcalls
    exact ih (h.request hu) (hserved.request hu) hrest

variable [Thrown ε]

theorem settleHeard_printed {e : ε} {text : String} (h : Thrown.text e = some text) :
    s.settleHeard j (some e) = { s with
      warnings := s.warnings ++
        ["domain '" ++ s.name ++ "': domain/changed listener failed: " ++ text] }.settle j.id
      (.ok j.result) := by
  simp only [State.settleHeard, h]

theorem settleHeard_unprintable {e : ε} (h : Thrown.text e = none) :
    s.settleHeard j (some e) = s.settle j.id (.error .unprintable) := by
  simp only [State.settleHeard, h]

theorem Inv.settleHeard (h : Inv o s [j.id]) (hserved : Served o s j) (thrown : Option ε) :
    Inv o (s.settleHeard j thrown) [] := by
  cases thrown with
  | none => exact h.settle hserved.ok
  | some e =>
    cases htext : Thrown.text e with
    | none =>
      rw [settleHeard_unprintable htext]
      exact h.settle (hserved.error _)
    | some text =>
      rw [settleHeard_printed htext]
      have he := h.explained
      refine Inv.settle ⟨?_, ?_⟩ hserved.ok
      · exact h.queued.congr rfl rfl rfl rfl (fun _ h => h) rfl rfl rfl rfl rfl
      · exact ⟨he.name, he.memory, he.medium, he.inOrder, he.landed_lt, he.done_lt, he.decided,
          he.running, he.answered, he.announced⟩

/-! ### What an action can do -/

section

variable {t : State ν ε}

theorem step_start (h : step s .start = some t) : ∃ id c rest, s.running = none ∧
    s.chain = (id, c) :: rest ∧ t = { s with chain := rest }.start id c := by
  simp only [step] at h
  split at h
  · rename_i id c rest hrunning hchain
    exact ⟨id, c, rest, hrunning, hchain, (Option.some.inj h).symm⟩
  · cases h

theorem step_land (h : step s .land = some t) : ∃ j, s.running = some j ∧ j.landed = false ∧
    t = { s with medium := s.medium.apply j.write, running := some { j with landed := true } } := by
  simp only [step] at h
  split at h
  · rename_i j hrunning
    by_cases hlanded : j.landed = true
    · rw [if_pos hlanded] at h
      cases h
    · rw [if_neg hlanded] at h
      exact ⟨j, hrunning, Bool.eq_false_iff.mpr hlanded, (Option.some.inj h).symm⟩
  · cases h

theorem step_reject {e : ε} (h : step s (.reject e) = some t) : ∃ j, s.running = some j ∧
    j.landed = false ∧ t = { s with running := none }.settle j.id (.error (.thrown e)) := by
  simp only [step] at h
  split at h
  · rename_i j hrunning
    by_cases hlanded : j.landed = true
    · rw [if_pos hlanded] at h
      cases h
    · rw [if_neg hlanded] at h
      exact ⟨j, hrunning, Bool.eq_false_iff.mpr hlanded, (Option.some.inj h).symm⟩
  · cases h

theorem step_resume {heard : Heard ν ε} (h : step s (.resume heard) = some t) :
    ∃ j u, s.running = some j ∧ j.landed = true ∧
      heard.calls.foldlM State.request (s.commit j) = some u ∧
      t = u.settleHeard j heard.thrown := by
  simp only [step] at h
  split at h
  · rename_i j hrunning
    by_cases hlanded : j.landed = true
    · rw [if_pos hlanded, Option.map_eq_some_iff] at h
      obtain ⟨u, hu, ht⟩ := h
      exact ⟨j, u, hrunning, hlanded, hu, ht.symm⟩
    · rw [if_neg hlanded] at h
      cases h
  · cases h

theorem step_release (h : step s .release = some t) : ∃ d, s.disposal = some d ∧
    s.unit = .opened ∧ s.drained d = true ∧ t = { s with unit := .closing } := by
  simp only [step] at h
  split at h
  · rename_i d hd
    by_cases hguard : s.unit = .opened ∧ s.drained d
    · rw [if_pos hguard] at h
      exact ⟨d, hd, hguard.1, hguard.2, (Option.some.inj h).symm⟩
    · rw [if_neg hguard] at h
      cases h
  · cases h

theorem step_unitClosed (h : step s .unitClosed = some t) :
    s.unit = .closing ∧ t = { s with unit := .closed, reserved := false } := by
  by_cases hguard : s.unit = .closing
  · rw [step, if_pos hguard] at h
    exact ⟨hguard, (Option.some.inj h).symm⟩
  · rw [step, if_neg hguard] at h
    cases h

theorem step_reopen (h : step s .reopen = some t) :
    (s.reserved = true ∧ t = { s with openings := s.openings ++ [.error (alreadyOpen s.name)] }) ∨
      (s.reserved = false ∧ t = { s with openings := s.openings ++ [.ok ()], reserved := true }) := by
  by_cases hguard : s.reserved = true
  · rw [step, if_pos hguard] at h
    exact .inl ⟨hguard, (Option.some.inj h).symm⟩
  · rw [step, if_neg hguard] at h
    exact .inr ⟨Bool.eq_false_iff.mpr hguard, (Option.some.inj h).symm⟩

end

omit [Thrown ε] in
theorem Inv.of_unit {unit : UnitState} {reserved : Bool} {openings : List (Except DomainError Unit)}
    (h : Inv o s []) (hquiet : unit ≠ .opened → s.disposal.isSome ∧ [] ++ s.pending = [])
    (hreserved : (unit ≠ .closed → reserved = true) ∧ (.ok () ∈ openings → unit = .closed)) :
    Inv o { s with unit := unit, reserved := reserved, openings := openings } [] := by
  have hq := h.queued
  have he := h.explained
  exact ⟨⟨hq.sorted, hq.bound, hq.last, hq.chained, hq.unsettled, hq.accounted, hq.awaits, hquiet,
      hq.refused, hreserved⟩,
    ⟨he.name, he.memory, he.medium, he.inOrder, he.landed_lt, he.done_lt, he.decided,
      he.running, he.answered, he.announced⟩⟩

theorem inv_step {a : Action ν ε} (h : Inv o s []) (hstep : step s a = some t) : Inv o t [] := by
  cases a with
  | request r => exact h.request hstep
  | start =>
    obtain ⟨id, c, rest, hrunning, hchain, rfl⟩ := step_start hstep
    have hc : s.requests[id]? = some c := h.queued.chained (id, c) (by simp [hchain])
    refine (h.begins hrunning hchain).start hrunning hc ?_
    intro i hi
    exact (h.explained.landed_lt i hi).1 id (by simp [State.pending, hchain])
  | land =>
    obtain ⟨j, hrunning, hlanded, rfl⟩ := step_land hstep
    exact h.land hrunning hlanded
  | reject e =>
    obtain ⟨j, hrunning, hlanded, rfl⟩ := step_reject hstep
    have hdrop := h.drop hrunning hlanded (.thrown e)
    exact hdrop.1.settle hdrop.2
  | resume heard =>
    obtain ⟨j, u, hrunning, hlanded, hu, rfl⟩ := step_resume hstep
    have hcommit := h.commit hrunning hlanded
    have hheard := hcommit.1.heard hcommit.2 hu
    exact hheard.1.settleHeard hheard.2 heard.thrown
  | release =>
    obtain ⟨d, hd, hopened, hdrained, rfl⟩ := step_release hstep
    have hreserved := h.queued.reserved
    apply h.of_unit
    · intro _
      exact ⟨by rw [hd]; rfl, h.queued.pending_nil hd hdrained⟩
    · refine ⟨fun _ => hreserved.1 (by simp [hopened]), fun hopen => ?_⟩
      have hclosed := hreserved.2 hopen
      simp [hopened] at hclosed
  | unitClosed =>
    obtain ⟨hclosing, rfl⟩ := step_unitClosed hstep
    apply h.of_unit
    · intro _
      exact h.queued.quiet (by simp [hclosing])
    · exact ⟨fun hne => absurd rfl hne, fun _ => rfl⟩
  | reopen =>
    have hreserved := h.queued.reserved
    rcases step_reopen hstep with ⟨hheld, rfl⟩ | ⟨hfree, rfl⟩
    · apply h.of_unit h.queued.quiet
      refine ⟨fun _ => hheld, fun hopen => hreserved.2 ?_⟩
      simpa using hopen
    · apply h.of_unit h.queued.quiet
      refine ⟨fun _ => rfl, fun _ => ?_⟩
      by_contra hne
      have hheld := hreserved.1 hne
      simp [hfree] at hheld

end

end Storage

end TianmaCoder
