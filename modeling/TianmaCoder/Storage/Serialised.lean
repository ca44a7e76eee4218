import TianmaCoder.Storage.Landed

/-!
# A storage domain is serialisable

Whatever its callers, its listeners and its backend do, an open domain behaves as if the calls
were served one after another in the order they were made: memory is the fold of the landed
writes, each decided on what the earlier ones left, the medium agrees with it, and the events
announce the landed writes. A call that rejects has changed nothing, unless a listener threw a
value that cannot be printed.

## Main definitions

* `Storage.Serialised` — what holds of a domain at every moment.
* `Storage.Reports` — a listener throws only values that the log text can be formatted from.

## Main results

* `Storage.serialised_iff_reports` — a run is serialised exactly when its listeners report.
-/

namespace TianmaCoder

namespace Storage

variable {ν ε : Type}

/-- A rejected call has not landed. -/
def State.Effectless (s : State ν ε) : Prop :=
  ∀ id e, (id, Except.error e) ∈ s.settled → id ∉ s.landedIds

/-- The actions of the domain alone, with a backend that serves and listeners that are
silent. -/
def Action.Quiet : Action ν ε → Prop
  | .start | .land => True
  | .resume heard => heard.calls = [] ∧ heard.thrown = none
  | _ => False

/-- What holds of an open domain at every moment. -/
structure Serialised [Thrown ε] (o : Opening ν) (s : State ν ε) : Prop where
  /-- Memory is the fold of the landed writes. -/
  memory : s.memory = o.contents.applyAll (s.landed.map Prod.snd)
  /-- The medium holds what memory holds. -/
  medium : s.medium.Holds s.durable o.contents.global
  /-- Writes land in the order of the calls. -/
  inOrder : s.landedIds.Pairwise (· < ·)
  /-- A landed write is the one its call decides on what the earlier calls left. -/
  decided : ∀ id w, (id, w) ∈ s.landed → ∃ c r, s.requests[id]? = some c ∧
    c.job o.name (s.before o id) = .ok (some w, r)
  /-- Every other call that settled was decided on what the earlier calls left, too. -/
  answered : ∀ id r, (id, r) ∈ s.settled → r ≠ refusal o → Answered o s id r
  /-- A rejected call has changed nothing. -/
  effectless : s.Effectless
  /-- Calls behind a rejected one are still served. -/
  served : ∃ as t, (∀ a ∈ as, Action.Quiet a) ∧ Transition.run step s as = some t ∧
    ∀ id < s.requests.length, id ∈ t.settledIds
  /-- The events are the landed writes, each visible in memory when it is emitted. -/
  announced : List.Forall₂ (fun e (l : ℕ × Write ν) => e.1 = l.2.change o.name ∧ l.2.VisibleIn e.2)
    s.events s.landed
  /-- Calls made after `close` reject. -/
  refused : ∀ d, s.disposal = some d → ∀ id, d.since ≤ id → id < s.requests.length →
    (id, refusal o) ∈ s.settled
  /-- The unit is closed only after `close`, when every call has settled. -/
  drained : s.unit ≠ .opened → s.disposal ≠ none ∧ ∀ id < s.requests.length, id ∈ s.settledIds
  /-- Reads serve memory until the unit is closed. -/
  reads : s.unit ≠ .closed → s.getGlobal = .ok s.memory.global ∧
    ∀ table, s.entries table = .ok (s.memory.records table) ∧
      s.keys table = .ok (OrderedMap.keys (s.memory.records table)) ∧
      s.size table = .ok (s.memory.records table).length ∧
      ∀ key, s.get table key = .ok (s.memory.find table key)
  /-- The name is opened again only after that. -/
  reopened : .ok () ∈ s.openings → s.unit = .closed

/-- A listener that throws in this action throws a value that can be printed. -/
def Reports [Thrown ε] (_ : State ν ε) : Action ν ε → Prop
  | .resume heard => ∀ e, heard.thrown = some e → (Thrown.text e).isSome
  | _ => True

section

variable {o : Opening ν} {s : State ν ε} {held : List ℕ} [Thrown ε]

/-! ### Rejections without effect -/

omit [Thrown ε] in
theorem effectless_settle_iff {id : ℕ} {r : Except (Failure ε) (Result ν)} :
    (s.settle id r).Effectless ↔ s.Effectless ∧ ∀ e, r = .error e → id ∉ s.landedIds := by
  constructor
  · intro h
    refine ⟨fun i e hi => h i e (List.mem_append_left _ hi), fun e hr => ?_⟩
    subst r
    exact h id e (List.mem_append_right _ (List.mem_singleton_self _))
  · rintro ⟨hold, hnew⟩ i e hi
    rcases List.mem_append.mp hi with hi | hi
    · exact hold i e hi
    · have heq := Prod.mk.inj (List.mem_singleton.mp hi)
      rw [heq.1]
      exact hnew e heq.2.symm

omit [Thrown ε] in
theorem Inv.effectless_request {t : State ν ε} {r : Request ν ε} (h : Inv o s held)
    (hr : s.request r = some t) : t.Effectless ↔ s.Effectless := by
  cases r with
  | write c =>
    by_cases hdeclared : c.declared s.memory
    · simp only [State.request, hdeclared, if_true, Option.some.injEq] at hr
      rw [← hr]
      unfold State.enqueue
      split
      · rw [effectless_settle_iff]
        refine and_iff_left fun e _ hmem => ?_
        have hlt := (h.explained.landed_lt _ hmem).2
        omega
      · exact Iff.rfl
    · simp [State.request, hdeclared] at hr
  | close =>
    cases hr
    unfold State.close
    split <;> exact Iff.rfl

omit [Thrown ε] in
theorem Inv.effectless_heard {t : State ν ε} {id : ℕ} {calls : List (Request ν ε)}
    (h : Inv o s [id]) (hcalls : calls.foldlM State.request s = some t) :
    t.landed = s.landed ∧ (t.Effectless ↔ s.Effectless) := by
  induction calls generalizing s with
  | nil =>
    cases hcalls
    exact ⟨rfl, Iff.rfl⟩
  | cons r calls ih =>
    rw [List.foldlM_cons] at hcalls
    obtain ⟨u, hu, hrest⟩ := Option.bind_eq_some_iff.mp hcalls
    obtain ⟨hlanded, hiff⟩ := ih (h.request hu) hrest
    exact ⟨hlanded.trans (requests_request hu).1, hiff.trans (h.effectless_request hu)⟩

omit [Thrown ε] in
theorem Inv.effectless_commit {j : Job ν} (h : Inv o s []) (hrunning : s.running = some j) :
    (s.commit j).Effectless ↔ s.Effectless := by
  have hids : (s.commit j).landedIds = s.landedIds ++ [j.id] := by
    simp [State.landedIds, State.commit]
  have hpending : j.id ∈ s.pending := by simp [State.pending, hrunning]
  constructor
  · intro heffectless i e hi hmem
    apply heffectless i e hi
    rw [hids]
    exact List.mem_append_left _ hmem
  · intro heffectless i e hi hmem
    rw [hids, List.mem_append, List.mem_singleton] at hmem
    rcases hmem with hmem | rfl
    · exact heffectless i e hi hmem
    · exact (h.queued.unsettled j.id (List.mem_map_of_mem hi)).1 hpending

theorem effectless_settleHeard_iff {j : Job ν} {thrown : Option ε} (hlanded : j.id ∈ s.landedIds) :
    (s.settleHeard j thrown).Effectless ↔
      s.Effectless ∧ ∀ e, thrown = some e → (Thrown.text e).isSome := by
  cases thrown with
  | none =>
    simp only [State.settleHeard, effectless_settle_iff]
    simp
  | some e =>
    cases htext : Thrown.text e with
    | none =>
      rw [settleHeard_unprintable htext, effectless_settle_iff]
      simp [hlanded, htext]
    | some text =>
      rw [settleHeard_printed htext, effectless_settle_iff]
      simp only [reduceCtorEq, false_implies, implies_true, and_true, Option.some.injEq,
        forall_eq', htext, Option.isSome_some]
      exact Iff.rfl

/-- An action leaves the rejected calls without effect exactly when its listeners report. -/
theorem effectless_step {t : State ν ε} {a : Action ν ε} (h : Inv o s [])
    (hstep : step s a = some t) : t.Effectless ↔ s.Effectless ∧ Reports s a := by
  have he := h.explained
  cases a with
  | request r => exact (h.effectless_request hstep).trans (and_iff_left trivial).symm
  | start =>
    obtain ⟨id, c, rest, hrunning, hchain, rfl⟩ := step_start hstep
    have hfresh : id ∉ s.landedIds := by
      intro hmem
      have hlt := (he.landed_lt id hmem).1 id (by simp [State.pending, hchain])
      omega
    refine Iff.trans ?_ (and_iff_left trivial).symm
    unfold State.start
    split
    · rw [effectless_settle_iff]
      exact and_iff_left fun _ _ => hfresh
    · rw [effectless_settle_iff]
      exact and_iff_left fun _ _ => hfresh
    · exact Iff.rfl
  | land =>
    obtain ⟨j, hrunning, hlanded, rfl⟩ := step_land hstep
    exact (and_iff_left trivial).symm
  | reject e =>
    obtain ⟨j, hrunning, hlanded, rfl⟩ := step_reject hstep
    refine Iff.trans ?_ (and_iff_left trivial).symm
    rw [effectless_settle_iff]
    refine and_iff_left fun _ _ hmem => ?_
    have hlt := (he.landed_lt j.id hmem).1 j.id (by simp [State.pending, hrunning])
    omega
  | resume heard =>
    obtain ⟨j, u, hrunning, hlanded, hu, rfl⟩ := step_resume hstep
    have hcommit := h.commit hrunning hlanded
    obtain ⟨hsame, hiff⟩ := hcommit.1.effectless_heard hu
    have hmem : j.id ∈ u.landedIds := by simp [State.landedIds, hsame, State.commit]
    rw [effectless_settleHeard_iff hmem, hiff, h.effectless_commit hrunning]
    exact Iff.rfl
  | release =>
    obtain ⟨d, hd, hopened, hdrained, rfl⟩ := step_release hstep
    exact (and_iff_left trivial).symm
  | unitClosed =>
    obtain ⟨hclosing, rfl⟩ := step_unitClosed hstep
    exact (and_iff_left trivial).symm
  | reopen =>
    rcases step_reopen hstep with ⟨hheld, rfl⟩ | ⟨hfree, rfl⟩
    · exact (and_iff_left trivial).symm
    · exact (and_iff_left trivial).symm

/-! ### Progress -/

/-- A waiting write lands and its job completes. -/
theorem run_job (hrunning : s.running.isSome) : ∃ as t, (∀ a ∈ as, Action.Quiet a) ∧
    Transition.run step s as = some t ∧ t.running = none ∧ t.chain = s.chain ∧
      t.requests = s.requests := by
  obtain ⟨j, hj⟩ := Option.isSome_iff_exists.mp hrunning
  have hquiet : Action.Quiet (.resume ⟨[], none⟩ : Action ν ε) := ⟨rfl, rfl⟩
  by_cases hlanded : j.landed = true
  · refine ⟨[.resume ⟨[], none⟩], (s.commit j).settle j.id (.ok j.result), ?_, ?_, rfl, rfl, rfl⟩
    · simpa using hquiet
    · simp [Transition.run, step, hj, hlanded, State.settleHeard]
  · let u : State ν ε :=
      { s with medium := s.medium.apply j.write, running := some { j with landed := true } }
    refine ⟨[.land, .resume ⟨[], none⟩],
      (u.commit { j with landed := true }).settle j.id (.ok j.result), ?_, ?_, rfl, rfl, rfl⟩
    · intro a ha
      rcases List.mem_cons.mp ha with rfl | ha
      · trivial
      · rw [List.mem_singleton.mp ha]
        exact hquiet
    · simp [Transition.run, step, hj, hlanded, State.settleHeard, u]

/-- The domain alone serves every call that waits. -/
theorem run_chain {s : State ν ε} : ∃ as t, (∀ a ∈ as, Action.Quiet a) ∧
    Transition.run step s as = some t ∧ t.running = none ∧ t.chain = [] ∧
      t.requests = s.requests := by
  generalize hchain : s.chain = chain
  induction chain generalizing s with
  | nil =>
    by_cases hrunning : s.running.isSome
    · obtain ⟨as, t, has, hrun, hnone, hsame, hrequests⟩ := run_job hrunning
      exact ⟨as, t, has, hrun, hnone, hsame.trans hchain, hrequests⟩
    · exact ⟨[], s, by simp, rfl, by simpa using hrunning, hchain, rfl⟩
  | cons e rest ih =>
    obtain ⟨id, c⟩ := e
    have hidle : ∃ as u, (∀ a ∈ as, Action.Quiet a) ∧ Transition.run step s as = some u ∧
        u.running = none ∧ u.chain = s.chain ∧ u.requests = s.requests := by
      by_cases hrunning : s.running.isSome
      · exact run_job hrunning
      · exact ⟨[], s, by simp, rfl, by simpa using hrunning, rfl, rfl⟩
    obtain ⟨as, u, has, hrun, hnone, hsame, hrequests⟩ := hidle
    have hnext : step u .start = some ({ u with chain := rest }.start id c) := by
      simp [step, hnone, hsame, hchain]
    have hrest : ({ u with chain := rest }.start id c).chain = rest := by
      unfold State.start
      split <;> rfl
    have hkept : ({ u with chain := rest }.start id c).requests = u.requests := by
      unfold State.start
      split <;> rfl
    obtain ⟨bs, t, hbs, hrun', hnone', hnil, hrequests'⟩ := ih hrest
    refine ⟨as ++ .start :: bs, t, ?_, ?_, hnone', hnil, ?_⟩
    · intro a ha
      rcases List.mem_append.mp ha with ha | ha
      · exact has a ha
      · rcases List.mem_cons.mp ha with rfl | ha
        · trivial
        · exact hbs a ha
    · rw [Transition.run_append, hrun]
      exact Transition.run_cons_eq_some_iff.mpr ⟨_, hnext, hrun'⟩
    · exact hrequests'.trans (hkept.trans hrequests)

theorem Inv.serialised (h : Inv o s []) : Serialised o s ↔ s.Effectless := by
  have hq := h.queued
  have he := h.explained
  refine ⟨Serialised.effectless, fun heffectless => ?_⟩
  refine ⟨he.memory, he.medium, he.inOrder, he.decided, he.answered, heffectless, ?_, he.announced,
    ?_, ?_, ?_, hq.reserved.2⟩
  · obtain ⟨as, t, has, hrun, hnone, hnil, hrequests⟩ := run_chain (s := s)
    refine ⟨as, t, has, hrun, fun id hid => ?_⟩
    have ht : Inv o t [] := Transition.run_induction (fun _ _ _ => inv_step) h hrun
    rw [← hrequests] at hid
    have hempty : t.pending = [] := by simp [State.pending, hnone, hnil]
    simpa [hempty] using ht.queued.accounted id hid
  · intro d hd
    have hrefused := (hq.refused d hd).2
    rw [he.name] at hrefused
    exact hrefused
  · intro hunit
    obtain ⟨hsome, hempty⟩ := hq.quiet hunit
    refine ⟨Option.isSome_iff_ne_none.mp hsome, fun id hid => ?_⟩
    simpa [hempty] using hq.accounted id hid
  · intro hunit
    simp [State.getGlobal, State.entries, State.keys, State.size, State.get, State.readable, hunit]

/-- Whatever its callers, its listeners and its backend do, a domain is serialised at every
moment exactly when no listener has thrown a value that cannot be printed. -/
theorem serialised_iff_reports (o : Opening ν) {as : List (Action ν ε)} {s : State ν ε}
    (hrun : Transition.run step (o.domain ε) as = some s) :
    Serialised o s ↔ Transition.Guarded step Reports (o.domain ε) as := by
  have hstart : (o.domain ε).Effectless := by
    intro id e hmem
    cases hmem
  have hinv : Inv o s [] :=
    Transition.run_induction (fun _ _ _ => inv_step) (inv_domain o) hrun
  have hguarded : s.Effectless ↔
      (o.domain ε).Effectless ∧ Transition.Guarded step Reports (o.domain ε) as :=
    Transition.run_iff_guarded (fun _ _ _ h hs => inv_step h hs)
      (fun _ _ _ h hs => effectless_step h hs) (inv_domain o) hrun
  rw [hinv.serialised, hguarded]
  exact and_iff_right hstart

end

/-! ### A listener that throws -/

/-- What a listener throws: an error, or an object without a prototype. -/
inductive Value
  | error (message : String)
  | bare
deriving DecidableEq

instance : Thrown Value where
  text
    | .error message => some ("Error: " ++ message)
    | .bare => none

/-- A domain `plans` with one empty table `steps`. -/
def plans : Opening ℕ where
  name := "plans"
  contents := ⟨[("steps", [])], none⟩
  medium := ⟨fun _ _ => none, none⟩
  loaded := by
    refine ⟨fun table key => ?_, rfl⟩
    unfold Contents.find Contents.records
    rw [OrderedMap.lookup_cons_ite]
    by_cases h : table = "steps" <;> simp [h]

/-- One record is put, the next update is queued by the listener that throws `e`. -/
def announced (e : Value) : List (Action ℕ Value) :=
  [.request (.write (.put "steps" "a" 1)), .start, .land,
    .resume ⟨[.write (.update "steps" "a" fun n => .ok (n + 1)), .close], some e⟩,
    .start, .land, .resume ⟨[], none⟩, .release, .unitClosed, .reopen]

theorem serialised_iff_reports_error : ∃ s,
    Transition.run step (plans.domain Value) (announced (.error "no")) = some s ∧
      s.landed = [(0, .putRecord "steps" "a" 1), (1, .putRecord "steps" "a" 2)] ∧
      Serialised plans s := by
  obtain ⟨s, hrun, hlanded⟩ : ∃ s,
      Transition.run step (plans.domain Value) (announced (.error "no")) = some s ∧
        s.landed = [(0, .putRecord "steps" "a" 1), (1, .putRecord "steps" "a" 2)] :=
    ⟨_, rfl, rfl⟩
  refine ⟨s, hrun, hlanded, (serialised_iff_reports plans hrun).mpr ?_⟩
  apply Transition.guarded_of_mem
  intro a ha s
  simp only [announced, List.mem_cons, List.not_mem_nil, or_false] at ha
  rcases ha with rfl | rfl | rfl | rfl | rfl | rfl | rfl | rfl | rfl | rfl <;>
    simp [Reports, Thrown.text]

/-- The call of the announced write rejects, although its write has landed. -/
theorem put_rejects_after_landing : ∃ s,
    Transition.run step (plans.domain Value) (announced .bare) = some s ∧
      (0, .error .unprintable) ∈ s.settled ∧ (0, .putRecord "steps" "a" 1) ∈ s.landed ∧
      ¬Serialised plans s := by
  refine ⟨_, rfl, by decide, by decide, fun h => ?_⟩
  exact h.effectless 0 .unprintable (by decide) (by decide)

end Storage

end TianmaCoder
