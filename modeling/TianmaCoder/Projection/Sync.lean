import TianmaCoder.Projection.Drive

/-!
# Consumers stay in sync

A consumer holds, for every unit that was registered when it took its snapshot and still is,
the served value of the unit's cell, and the cell lags behind the log by exactly the event
whose walk has not reached the unit yet. A read in the middle of a walk on its session would
advance such a cell without notifying anybody; when no call does that, every consumer agrees
with a fresh snapshot as soon as the walk is over.

## Main definitions

* `Registry.lag` — the events a walk has still to bring to a unit.
* `Consumer.InSync` — what a consumer holds.
* `Registry.Settled` — no call reads the cells of a session in the middle of its walk.

## Main results

* `Registry.step_inSync` — settled calls keep every consumer in sync.
* `Registry.drive_exactly_once` — every run.
-/

set_option linter.unusedSectionVars false

namespace TianmaCoder

namespace Projection

open Checked

section

variable {σ : Type} [DecidableEq σ] {metadata : σ → SessionMetadata}

namespace Registry

/-- One event is still to come when a walk on the session has not passed the slot. -/
def lag (walks : List (Walk σ)) (s : σ) (slot : ℕ) : ℕ :=
  if ∃ w ∈ walks, w.session = s ∧ w.cursor ≤ slot then 1 else 0

theorem lag_idle {walks : List (Walk σ)} {s : σ} (h : ∀ w ∈ walks, w.session ≠ s) (slot : ℕ) :
    lag walks s slot = 0 := by
  unfold lag
  rw [if_neg]
  rintro ⟨w, hw, hsession, _⟩
  exact h w hw hsession

end Registry

/-- The consumer holds the served value of every unit that stayed registered. -/
structure Consumer.InSync (st : Registry σ) (c : Consumer σ) : Prop where
  since_le : c.since ≤ st.registrations.length
  slots : ∀ (i : ℕ) (r : Registration σ), i < c.since → st.registrations[i]? = some r →
    r.isLive = true → ∃ cell, r.cells c.session = some cell ∧
      r.unit.served cell.state = .ok (c.values r.unit.key) ∧
      cell.observedSeq + 1 + Registry.lag st.walks c.session i = (st.logs c.session).length

namespace Registry

/-- No call reads the cells of a session in the middle of a walk on it. -/
def Settled (st : Registry σ) : Call σ → Prop
  | .stateOf _ s _ | .snapshot _ s | .checkpoint _ s | .hydrate s _ _ _ | .subscribe _ s =>
    ∀ w ∈ st.walks, w.session ≠ s
  | _ => True

variable {st st' : Registry σ} {c : Consumer σ}

/-- Slots that keep their unit and the session's cell keep a consumer in sync. -/
theorem inSync_of_slots (h : c.InSync st)
    (hlength : st.registrations.length ≤ st'.registrations.length)
    (hslots : ∀ (i : ℕ) (r' : Registration σ), i < c.since → st'.registrations[i]? = some r' →
      r'.isLive = true → ∃ r, st.registrations[i]? = some r ∧ r.isLive = true ∧
        r'.unit = r.unit ∧ (∀ cell, r.cells c.session = some cell → r'.cells c.session = some cell) ∧
        (st.logs c.session).length + lag st'.walks c.session i
          = (st'.logs c.session).length + lag st.walks c.session i) : c.InSync st' := by
  refine ⟨Nat.le_trans h.since_le hlength, ?_⟩
  intro i r' hi hr' hlive'
  obtain ⟨r, hr, hlive, hunit, hcells, hlag⟩ := hslots i r' hi hr' hlive'
  obtain ⟨cell, hcell, hserved, hobserved⟩ := h.slots i r hi hr hlive
  exact ⟨cell, hcells cell hcell, by rw [hunit, hserved], by omega⟩

variable {s : σ}

/-- Reading the cells of an idle session changes none of its states. -/
theorem inSync_updates (h : st.Inv metadata) {registrations : List (Registration σ)} {observers : ℕ}
    {consumers : List (Consumer σ)}
    (hupdates : List.Forall₂ (Registration.Updates metadata st.logs s) st.registrations registrations)
    (hidle : ∀ w ∈ st.walks, w.session ≠ s) (hc : c.InSync st) :
    c.InSync ⟨st.logs, registrations, st.walks, observers, consumers⟩ := by
  refine ⟨by rw [← hupdates.length_eq]; exact hc.since_le, ?_⟩
  intro i r' hi hr' hlive'
  obtain ⟨r, hr, hr_updates⟩ := (forall₂_getElem? hupdates i).2 r' hr'
  have hlive : r.isLive = true := by
    rw [← isLive_of_refs hr_updates.refs]
    exact hlive'
  obtain ⟨cell, hcell, hserved, hobserved⟩ := hc.slots i r hi hr hlive
  by_cases hs : c.session = s
  · subst hs
    rcases hr_updates.cell with heq | ⟨n, cell', hcell', hat, hle⟩
    · exact ⟨cell, by rw [heq, hcell], by rw [hr_updates.unit, hserved], hobserved⟩
    · obtain ⟨m, hm⟩ := h.cells r (List.mem_of_getElem? hr) c.session cell hcell
      rw [lag_idle hidle] at hobserved
      have hlow := hle cell hcell
      have hn := hat.le
      rw [hm.observedSeq, hat.observedSeq] at hlow
      have hm' := hm.le
      rw [hm.observedSeq] at hobserved
      have heq : n = m := by omega
      subst heq
      refine ⟨cell', hcell', ?_, ?_⟩
      · rw [hr_updates.unit, hat.state, ← hm.state, hserved]
      · rw [lag_idle hidle, hat.observedSeq]
        exact hobserved
  · exact ⟨cell, by rw [hr_updates.others _ hs, hcell], by rw [hr_updates.unit, hserved], hobserved⟩

/-! ## Snapshots -/

theorem lookup_eq {β : Type} {key : String} {value : Option β} {entries : List (String × β)}
    (h : ∀ y, (key, y) ∈ entries ↔ value = some y) : entries.lookup key = value := by
  cases hlookup : entries.lookup key with
  | some y => exact ((h y).mp (mem_of_lookup hlookup)).symm
  | none =>
    cases value with
    | none => rfl
    | some y =>
      have hmem := (h y).mpr rfl
      have hkey : key ∈ OrderedMap.keys entries := List.mem_map_of_mem hmem
      rw [OrderedMap.mem_keys_iff, hlookup] at hkey
      cases hkey

variable {r : Registration σ} {value : Option Json}

theorem lookup_entries (h : st.Inv metadata) {entries : List (Option (String × Json))}
    (hentries : st.registrations.mapM (Registration.servedEntry s) = .ok entries) {i : ℕ}
    (hr : st.registrations[i]? = some r) (hlive : r.isLive = true) {cell : UnitCell}
    (hcell : r.cells s = some cell) (hserved : r.unit.served cell.state = .ok value) :
    (entries.filterMap id).lookup r.unit.key = value := by
  have hforall := forall₂_of_mapM hentries
  have hentry : r.servedEntry s = .ok (value.map (r.unit.key, ·)) := by
    simp [Registration.servedEntry, hlive, hcell, hserved]
  apply lookup_eq
  intro y
  rw [List.mem_filterMap]
  constructor
  · rintro ⟨entry, hentryMem, hid⟩
    rw [id_eq] at hid
    subst hid
    obtain ⟨j, hj⟩ := List.getElem?_of_mem hentryMem
    obtain ⟨r', hr', hok⟩ := (forall₂_getElem? hforall j).2 _ hj
    unfold Registration.servedEntry at hok
    split at hok
    · next cell' hlive' hcell' =>
        obtain ⟨value', hvalue', hpure⟩ := bind_ok hok
        rw [pure_eq, Except.ok.injEq, Option.map_eq_some_iff] at hpure
        obtain ⟨y', rfl, hpair⟩ := hpure
        rw [Prod.mk.injEq] at hpair
        have heq := h.keys j i r' r hr' hr hlive' hlive hpair.1
        subst heq
        rw [hr] at hr'
        cases hr'
        rw [hcell] at hcell'
        cases hcell'
        rw [hserved] at hvalue'
        cases hvalue'
        rw [hpair.2]
    · cases hok
  · rintro rfl
    obtain ⟨entry, hj, hok⟩ := (forall₂_getElem? hforall i).1 r hr
    rw [hentry] at hok
    cases hok
    exact ⟨_, List.mem_of_getElem? hj, rfl⟩

theorem servedEntry_ok (h : st.Inv metadata) (s : σ) (hr : r ∈ st.registrations) :
    ∃ entry, r.servedEntry s = .ok entry := by
  unfold Registration.servedEntry
  split
  · next cell _ hcell =>
      obtain ⟨n, hn⟩ := h.cells r hr s cell hcell
      obtain ⟨value, hvalue⟩ := r.unit.served_fold (metadata s) ((st.logs s).take n)
      rw [hn.state, hvalue]
      exact ⟨_, rfl⟩
  · exact ⟨none, rfl⟩

/-- A snapshot never throws. -/
theorem snapshot_total (h : st.Inv metadata) (same : Identity) (s : σ) :
    ∃ out, st.snapshot metadata same s = .ok out := by
  obtain ⟨registrations, hmaterialize, hspecs⟩ := materializeCells_spec h same s
  have hinv := (h.materialized hmaterialize).1
  have hmap : ∀ rest : List (Registration σ), (∀ r ∈ rest, r ∈ registrations) →
      ∃ entries, rest.mapM (Registration.servedEntry s) = .ok entries := by
    intro rest hmem
    induction rest with
    | nil => exact ⟨[], rfl⟩
    | cons r rest ih =>
      rw [List.forall_mem_cons] at hmem
      obtain ⟨entry, hentry⟩ := servedEntry_ok hinv s hmem.1
      obtain ⟨entries, hentries⟩ := ih hmem.2
      exact ⟨entry :: entries, by rw [List.mapM_cons, hentry, hentries]; rfl⟩
  obtain ⟨entries, hentries⟩ := hmap registrations fun _ => id
  refine ⟨(⟨cursorBefore (st.logs s).length, entries.filterMap id⟩,
    ⟨st.logs, registrations, st.walks, st.observers, st.consumers⟩), ?_⟩
  simp only [snapshot, hmaterialize, ok_bind, hentries]
  rfl

/-! ## Walks -/

theorem lag_cons (w : Walk σ) (walks : List (Walk σ)) (s : σ) (slot : ℕ) :
    lag (w :: walks) s slot
      = if (w.session = s ∧ w.cursor ≤ slot) ∨ ∃ w ∈ walks, w.session = s ∧ w.cursor ≤ slot
        then 1 else 0 := by
  simp only [lag, List.exists_mem_cons_iff]

theorem lag_pass {w : Walk σ} {walks : List (Walk σ)}
    (hdistinct : ((w :: walks).map (·.session)).Nodup) (s : σ) (slot : ℕ) :
    (¬ (s = w.session ∧ slot = w.cursor) →
        lag (⟨w.session, w.event, w.cursor + 1⟩ :: walks) s slot = lag (w :: walks) s slot) ∧
      (s = w.session → slot = w.cursor → lag (w :: walks) s slot = 1 ∧
        lag (⟨w.session, w.event, w.cursor + 1⟩ :: walks) s slot = 0) := by
  simp only [lag_cons]
  constructor
  · intro hne
    have hiff : (w.session = s ∧ w.cursor + 1 ≤ slot) ↔ (w.session = s ∧ w.cursor ≤ slot) := by
      constructor
      · rintro ⟨hs, hle⟩
        exact ⟨hs, by omega⟩
      · rintro ⟨hs, hle⟩
        refine ⟨hs, ?_⟩
        by_contra hlt
        exact hne ⟨hs.symm, by omega⟩
    simp only [hiff]
  · rintro rfl rfl
    have hnone : ¬ ∃ w' ∈ walks, w'.session = w.session ∧ w'.cursor ≤ w.cursor := by
      rintro ⟨w', hw', hsession, _⟩
      rw [List.map_cons, List.nodup_cons] at hdistinct
      exact hdistinct.1 (hsession ▸ List.mem_map_of_mem hw')
    rw [if_pos (.inl ⟨rfl, Nat.le_refl _⟩), if_neg]
    · exact ⟨rfl, rfl⟩
    · rintro (⟨_, hle⟩ | hother)
      · omega
      · exact hnone hother

/-- A consumer after a value was published. -/
def Consumer.after (s : σ) (key : String) (value : Option Json) (c : Consumer σ) : Consumer σ :=
  match value with
  | some value =>
    if c.session = s then ⟨c.session, c.since, Function.update c.values key (some value)⟩ else c
  | none => c

theorem mem_notified {key : String} {consumers : List (Consumer σ)} {c' : Consumer σ}
    (h : c' ∈ match value with | some value => notify s key value consumers | none => consumers) :
    ∃ c ∈ consumers, c' = Consumer.after s key value c := by
  cases value with
  | none => exact ⟨c', h, rfl⟩
  | some value =>
    obtain ⟨c, hc, rfl⟩ := List.mem_map.mp h
    exact ⟨c, hc, rfl⟩

theorem Consumer.after_session (s : σ) (key : String) (value : Option Json) (c : Consumer σ) :
    (Consumer.after s key value c).session = c.session ∧
      (Consumer.after s key value c).since = c.since := by
  unfold Consumer.after
  split
  · split <;> exact ⟨rfl, rfl⟩
  · exact ⟨rfl, rfl⟩

theorem Consumer.after_values {key : String} {key' : String} :
    (Consumer.after s key value c).values key'
      = if c.session = s ∧ key' = key then value.or (c.values key') else c.values key' := by
  unfold Consumer.after
  cases value with
  | none => simp
  | some value =>
    by_cases hs : c.session = s
    · by_cases hk : key' = key
      · simp [hs, hk]
      · simp [hs, hk]
    · simp [hs]

theorem drive_inSync (h : st.Inv metadata) (hsync : ∀ c ∈ st.consumers, c.InSync st)
    {same : Identity} {sameView : Bool} (hstep : st.drive metadata same sameView = .ok st') :
    ∀ c ∈ st'.consumers, c.InSync st' := by
  unfold drive at hstep
  split at hstep
  · cases hstep
    exact hsync
  · next walk walks hwalks =>
      have hdistinct := h.distinct
      rw [hwalks] at hdistinct
      obtain ⟨hlast, hevent⟩ := h.walks walk (by rw [hwalks]; simp)
      dsimp only at hstep
      split at hstep
      · next hend =>
          cases hstep
          intro c hc
          have hin := hsync c hc
          have hlength := List.getElem?_eq_none_iff.mp hend
          refine inSync_of_slots hin (Nat.le_refl _) ?_
          intro i r hi hr hlive
          refine ⟨r, hr, hlive, rfl, fun _ => id, ?_⟩
          have hsince := hin.since_le
          have hnot : ¬ (walk.session = c.session ∧ walk.cursor ≤ i) := by
            rintro ⟨_, hle⟩
            omega
          rw [hwalks, lag_cons]
          simp only [hnot, false_or, lag]
      · next r hr =>
          split at hstep
          · next hdriven =>
              obtain ⟨hlive, hunseen⟩ := Bool.and_eq_true_iff.mp hdriven
              have hnext : ∀ w ∈ (⟨walk.session, walk.event, walk.cursor + 1⟩ : Walk σ) :: walks,
                  ∃ w₀ ∈ st.walks, w.session = w₀.session ∧ w.event = w₀.event := by
                rw [hwalks]
                intro w hw
                rcases List.mem_cons.mp hw with rfl | hw
                · exact ⟨walk, by simp, rfl, rfl⟩
                · exact ⟨w, List.mem_cons_of_mem _ hw, rfl, rfl⟩
              have hsame : List.Forall₂ (Registration.Updates metadata st.logs walk.session)
                  st.registrations st.registrations := List.forall₂_same.mpr fun r _ => .refl r
              have hinv : Inv metadata ⟨st.logs, st.registrations,
                  ⟨walk.session, walk.event, walk.cursor + 1⟩ :: walks, st.observers, st.consumers⟩ :=
                (h.updates hsame hnext (by simpa using hdistinct)).1
              have hbelow : ∀ cell, r.cells walk.session = some cell →
                  cell.observedSeq < (walk.event.seq : ℤ) := by
                intro cell hcell
                simp only [Registration.hasSeen, hcell, Bool.not_eq_true',
                  decide_eq_false_iff_not] at hunseen
                omega
              obtain ⟨after, value, hunit, hafter, hserved⟩ := driveUnit_spec hinv hevent walk.cursor
                (List.mem_of_getElem? hr) hbelow same sameView
              rw [hunit] at hstep
              cases hstep
              intro c' hc'
              obtain ⟨c, hc, rfl⟩ := mem_notified hc'
              have hin := hsync c hc
              obtain ⟨hsession, hsince⟩ := Consumer.after_session walk.session r.unit.key value c
              have hlistening : 0 < st.observers + st.consumers.length := by
                have hpos : 0 < st.consumers.length := List.length_pos_of_mem hc
                omega
              have hget : ∀ i : ℕ, (st.registrations.set walk.cursor
                  (r.setCell walk.session after))[i]?
                  = if walk.cursor = i then some (r.setCell walk.session after)
                    else st.registrations[i]? := by
                intro i
                obtain ⟨hlt, -⟩ := List.getElem?_eq_some_iff.mp hr
                rw [List.getElem?_set]
                by_cases hi : walk.cursor = i
                · subst hi
                  simp [hlt]
                · simp [hi]
              refine ⟨by rw [hsince, List.length_set]; exact hin.since_le, ?_⟩
              intro i r' hi hr' hlive'
              rw [hsince] at hi
              rw [hget] at hr'
              rw [hsession]
              have hpass := lag_pass hdistinct c.session i
              rw [← hwalks] at hpass
              split at hr'
              · next hcursor =>
                  cases hr'
                  subst hcursor
                  obtain ⟨cell, hcell, hcellServed, hobserved⟩ := hin.slots _ r hi hr hlive
                  by_cases hs : c.session = walk.session
                  · obtain ⟨hlag, hlag'⟩ := hpass.2 hs rfl
                    rw [hs] at hcell hobserved hlag hlag' ⊢
                    rw [hlag] at hobserved
                    refine ⟨after, r.setCell_self _ _, ?_, ?_⟩
                    · rw [Consumer.after_values, if_pos ⟨hs, rfl⟩]
                      exact hserved hlistening cell _ hcell (by omega) hcellServed
                    · rw [hlag', hafter.observedSeq]
                      push_cast
                      omega
                  · have hlag := hpass.1 fun hboth => hs hboth.1
                    refine ⟨cell, ?_, ?_, ?_⟩
                    · simp [Registration.setCell, hs, hcell]
                    · rw [Consumer.after_values, if_neg fun hboth => hs hboth.1]
                      exact hcellServed
                    · rw [hlag]
                      exact hobserved
              · next hcursor =>
                  obtain ⟨cell, hcell, hcellServed, hobserved⟩ := hin.slots i r' hi hr' hlive'
                  have hlag := hpass.1 fun hboth => hcursor hboth.2.symm
                  refine ⟨cell, hcell, ?_, by rw [hlag]; exact hobserved⟩
                  rw [Consumer.after_values, if_neg]
                  · exact hcellServed
                  · rintro ⟨_, hkey⟩
                    exact hcursor (h.keys i walk.cursor r' r hr' hr hlive' hlive hkey).symm
          · next hskipped =>
              cases hstep
              intro c hc
              have hin := hsync c hc
              refine inSync_of_slots hin (Nat.le_refl _) ?_
              intro i r' hi hr' hlive'
              refine ⟨r', hr', hlive', rfl, fun _ => id, ?_⟩
              have hpass := lag_pass hdistinct c.session i
              rw [← hwalks] at hpass
              by_cases hboth : c.session = walk.session ∧ i = walk.cursor
              · -- a live unit that the walk reaches has not seen the event
                obtain ⟨hs, rfl⟩ := hboth
                obtain ⟨cell, hcell, _, hobserved⟩ := hin.slots _ r' hi hr' hlive'
                rw [hr] at hr'
                cases hr'
                obtain ⟨hlag, _⟩ := hpass.2 hs rfl
                rw [hs] at hcell hobserved hlag
                rw [hlag] at hobserved
                have hunseen : r.hasSeen walk.session walk.event = false := by
                  simp only [Registration.hasSeen, hcell, decide_eq_false_iff_not]
                  omega
                rw [hlive', hunseen] at hskipped
                simp at hskipped
              · rw [hpass.1 hboth]

/-! ## Every call -/

theorem created_inSync (s : σ) (hc : c.InSync st) : c.InSync (st.created metadata s) := by
  unfold created
  split
  · refine inSync_of_slots hc (by simp) ?_
    intro i r' hi hr' hlive'
    rw [List.getElem?_map, Option.map_eq_some_iff] at hr'
    obtain ⟨r, hr, heq⟩ := hr'
    split at heq
    · next hnone =>
        obtain ⟨hlive, hcell⟩ := Bool.and_eq_true_iff.mp hnone
        subst heq
        refine ⟨r, hr, hlive, rfl, ?_, rfl⟩
        intro cell hsome
        by_cases hs : c.session = s
        · rw [hs] at hsome
          rw [hsome] at hcell
          cases hcell
        · simpa [Registration.setCell, hs] using hsome
    · subst heq
      exact ⟨r, hr, hlive', rfl, fun _ => id, rfl⟩
  · exact hc

theorem append_inSync {event : SessionEvent} (hstep : st.append s event = .ok st')
    (hc : c.InSync st) : c.InSync st' := by
  unfold append at hstep
  split at hstep
  · cases hstep
  · next hidle =>
      cases hstep
      have hother : ∀ w ∈ st.walks, w.session ≠ s := by
        intro w hw heq
        exact hidle (List.any_eq_true.mpr ⟨w, hw, by simp [heq]⟩)
      refine inSync_of_slots hc (Nat.le_refl _) ?_
      intro i r hi hr hlive
      refine ⟨r, hr, hlive, rfl, fun _ => id, ?_⟩
      dsimp only
      rw [lag_cons]
      by_cases hs : s = c.session
      · rw [hs] at hother
        rw [if_pos (.inl ⟨hs, Nat.zero_le _⟩), lag_idle hother, hs]
        simp
      · have hs' : c.session ≠ s := fun heq => hs heq.symm
        simp [hs, hs', lag]

theorem recount_inSync {slot : ℕ} (hr : st.registrations[slot]? = some r) (hlive : r.isLive = true)
    (refs : ℕ) (hc : c.InSync st) :
    c.InSync ⟨st.logs, st.registrations.set slot ⟨r.unit, r.cells, refs⟩, st.walks, st.observers,
      st.consumers⟩ := by
  refine inSync_of_slots hc (by simp) ?_
  intro i r' hi hr' hlive'
  have ⟨hlt, _⟩ := List.getElem?_eq_some_iff.mp hr
  rw [List.getElem?_set] at hr'
  split at hr'
  · next hslot =>
      subst hslot
      cases hr'
      exact ⟨r, hr, hlive, rfl, fun _ => id, rfl⟩
  · exact ⟨r', hr', hlive', rfl, fun _ => id, rfl⟩

theorem register_inSync {unit : ProjectionUnit} (hstep : st.register unit = .ok st')
    (hc : c.InSync st) : c.InSync st' := by
  unfold register at hstep
  split at hstep
  · cases hstep
    refine inSync_of_slots hc (by simp) ?_
    intro i r hi hr hlive
    have hlt : i < st.registrations.length := Nat.lt_of_lt_of_le hi hc.since_le
    rw [List.getElem?_append_left hlt] at hr
    exact ⟨r, hr, hlive, rfl, fun _ => id, rfl⟩
  · next slot hslot =>
      obtain ⟨r, hr, hlive, _⟩ := find?_eq_some hslot
      simp only [hr] at hstep
      split at hstep
      · cases hstep
      · cases hstep
        exact recount_inSync hr hlive _ hc

theorem release_inSync (key : String) (hc : c.InSync st) : c.InSync (st.release key) := by
  unfold release
  split
  · exact hc
  · next slot hslot =>
      obtain ⟨r, hr, hlive, _⟩ := find?_eq_some hslot
      simp only [hr]
      exact recount_inSync hr hlive _ hc

/-- A read of an idle session keeps every consumer in sync. -/
theorem materialized_inSync (h : st.Inv metadata) {same : Identity}
    (hidle : ∀ w ∈ st.walks, w.session ≠ s) (hstep : st.materializeCells metadata same s = .ok st')
    (hsync : ∀ c ∈ st.consumers, c.InSync st) :
    st'.consumers = st.consumers ∧ ∀ c ∈ st'.consumers, c.InSync st' := by
  obtain ⟨registrations, hregistrations, hspecs⟩ := materializeCells_spec h same s
  rw [hregistrations] at hstep
  cases hstep
  have hupdates := hspecs.imp fun _ _ hr => hr.1
  exact ⟨rfl, fun c hc => inSync_updates h hupdates hidle (hsync c hc)⟩

theorem subscribe_inSync (h : st.Inv metadata) {same : Identity}
    (hidle : ∀ w ∈ st.walks, w.session ≠ s) (hsync : ∀ c ∈ st.consumers, c.InSync st)
    (hstep : st.subscribe metadata same s = .ok st') : ∀ c ∈ st'.consumers, c.InSync st' := by
  obtain ⟨⟨fresh, st₁⟩, hsnapshot, hstep⟩ := bind_ok hstep
  cases hstep
  obtain ⟨hmaterialize, entries, hentries, hvalues⟩ := snapshot_ok hsnapshot
  have hinv := (h.materialized hmaterialize).1
  obtain ⟨_, hold⟩ := materialized_inSync h hidle hmaterialize hsync
  intro c hc
  rcases List.mem_append.mp hc with hc | hc
  · exact ⟨(hold c hc).since_le, (hold c hc).slots⟩
  · rw [List.mem_singleton.mp hc]
    refine ⟨Nat.le_refl _, ?_⟩
    intro i r hi hr hlive
    obtain ⟨registrations, hregistrations, hspecs⟩ := materializeCells_spec h same s
    rw [hregistrations] at hmaterialize
    cases hmaterialize
    obtain ⟨r₀, hr₀, hupdates, hcell⟩ := (forall₂_getElem? hspecs i).2 r hr
    obtain ⟨cell, hcell, hat⟩ := hcell (by rw [← isLive_of_refs hupdates.refs]; exact hlive)
    obtain ⟨value, hvalue⟩ := r.unit.served_fold (metadata s) ((st.logs s).take (st.logs s).length)
    have hserved : r.unit.served cell.state = .ok value := by
      rw [hat.state, ← hupdates.unit, hvalue]
    refine ⟨cell, hcell, ?_, ?_⟩
    · dsimp only
      rw [hserved, hvalues, lookup_entries hinv hentries hr hlive hcell hserved]
    · dsimp only
      rw [lag_idle hidle, hat.observedSeq]
      omega

theorem step_inSync {call : Call σ} (h : st.Inv metadata) (hsync : ∀ c ∈ st.consumers, c.InSync st)
    (hown : st.Own metadata call) (hsettled : st.Settled call)
    (hstep : st.step metadata call = some st') : ∀ c ∈ st'.consumers, c.InSync st' := by
  have hlisteners : ∀ (observers : ℕ) (consumers : List (Consumer σ)) (c : Consumer σ),
      c.InSync st → c.InSync ⟨st.logs, st.registrations, st.walks, observers, consumers⟩ :=
    fun _ _ _ hc => ⟨hc.since_le, hc.slots⟩
  cases call with
  | created s =>
    cases hstep
    have hconsumers : (st.created metadata s).consumers = st.consumers := by
      unfold created
      split <;> rfl
    rw [hconsumers]
    exact fun c hc => created_inSync s (hsync c hc)
  | append s event =>
    have hok := toOption_eq_some hstep
    have hconsumers : st'.consumers = st.consumers := by
      unfold append at hok
      split at hok
      · cases hok
      · cases hok
        rfl
    rw [hconsumers]
    exact fun c hc => append_inSync hok (hsync c hc)
  | drive same sameView => exact drive_inSync h hsync (toOption_eq_some hstep)
  | stateOf same s key =>
    obtain ⟨out, hout, rfl⟩ := map_toOption hstep
    unfold stateOf at hout
    split at hout
    · cases hout
      exact hsync
    · obtain ⟨st₁, hst₁, hout⟩ := bind_ok hout
      cases hout
      exact (materialized_inSync h hsettled hst₁ hsync).2
  | snapshot same s =>
    obtain ⟨⟨fresh, st₁⟩, hout, rfl⟩ := map_toOption hstep
    exact (materialized_inSync h hsettled (snapshot_ok hout).1 hsync).2
  | checkpoint same s =>
    obtain ⟨out, hout, rfl⟩ := map_toOption hstep
    obtain ⟨st₁, hst₁, hout⟩ := bind_ok hout
    cases hout
    exact (materialized_inSync h hsettled hst₁ hsync).2
  | hydrate s rows count base =>
    obtain ⟨out, hout, rfl⟩ := map_toOption hstep
    obtain ⟨registrations, heq, hupdates⟩ := hydrate_inv h hown hout
    rw [heq]
    exact fun c hc => inSync_updates h hupdates hsettled (hsync c hc)
  | register unit =>
    have hok := toOption_eq_some hstep
    have hconsumers : st'.consumers = st.consumers := by
      unfold register at hok
      split at hok
      · cases hok
        rfl
      · split at hok
        · split at hok
          · cases hok
          · cases hok
            rfl
        · cases hok
          rfl
    rw [hconsumers]
    exact fun c hc => register_inSync hok (hsync c hc)
  | release key =>
    cases hstep
    have hconsumers : (st.release key).consumers = st.consumers := by
      unfold release
      split
      · rfl
      · split <;> rfl
    rw [hconsumers]
    exact fun c hc => release_inSync key (hsync c hc)
  | listen =>
    cases hstep
    exact fun c hc => hlisteners _ _ c (hsync c hc)
  | unlisten =>
    cases hstep
    exact fun c hc => hlisteners _ _ c (hsync c hc)
  | subscribe same s => exact subscribe_inSync h hsettled hsync (toOption_eq_some hstep)
  | unsubscribe index =>
    cases hstep
    exact fun c hc => hlisteners _ _ c (hsync c (List.mem_of_mem_eraseIdx hc))

/-! ## Runs -/

/-- A registry before any call: sessions may be older than it. -/
structure Initial (st : Registry σ) : Prop where
  contiguous : ∀ s, Contiguous (st.logs s)
  registrations : st.registrations = []
  walks : st.walks = []
  consumers : st.consumers = []

theorem Initial.inv (h : st.Initial) : st.Inv metadata := by
  refine ⟨h.contiguous, ?_, ?_, ?_, ?_⟩
  · simp [h.registrations]
  · simp [h.walks]
  · simp [h.walks]
  · simp [h.registrations]

/-- An idle session's consumer agrees with a fresh snapshot. -/
theorem inSync_fresh (h : st.Inv metadata) (hc : c.InSync st)
    (hidle : ∀ w ∈ st.walks, w.session ≠ c.session) (same : Identity) :
    ∃ out, st.snapshot metadata same c.session = .ok out ∧
      ∀ (i : ℕ) (r : Registration σ), i < c.since → st.registrations[i]? = some r →
        r.isLive = true → out.1.values.lookup r.unit.key = c.values r.unit.key := by
  obtain ⟨⟨fresh, st'⟩, hout⟩ := snapshot_total h same c.session
  refine ⟨(fresh, st'), hout, ?_⟩
  intro i r hi hr hlive
  obtain ⟨hmaterialize, entries, hentries, hvalues⟩ := snapshot_ok hout
  have hinv := (h.materialized hmaterialize).1
  obtain ⟨registrations, hregistrations, hspecs⟩ := materializeCells_spec h same c.session
  rw [hregistrations] at hmaterialize
  cases hmaterialize
  have hin : c.InSync ⟨st.logs, registrations, st.walks, st.observers, st.consumers⟩ :=
    inSync_updates h (hspecs.imp fun _ _ hr => hr.1) hidle hc
  obtain ⟨r', hr', hupdates, _⟩ := (forall₂_getElem? hspecs i).1 r hr
  have hlive' : r'.isLive = true := by
    rw [isLive_of_refs hupdates.refs]
    exact hlive
  obtain ⟨cell, hcell, hserved, _⟩ := hin.slots i r' hi hr' hlive'
  have hlookup := lookup_entries hinv hentries hr' hlive' hcell hserved
  dsimp only
  rw [hvalues, ← hupdates.unit]
  exact hlookup

/-- Every cell is the fold of its unit over the events up to its watermark. -/
def ExactlyOnce (metadata : σ → SessionMetadata) (st : Registry σ) : Prop :=
  ∀ r ∈ st.registrations, ∀ s cell, r.cells s = some cell → ∃ n ≤ (st.logs s).length,
    cell.observedSeq = (n : ℤ) - 1 ∧
      cell.state = r.unit.fold (metadata s) ((st.logs s).take n)

/-- A consumer of an idle session holds what a fresh snapshot has for every key that was
registered when the consumer subscribed and still is. -/
def ConsumersAgree (metadata : σ → SessionMetadata) (st : Registry σ) : Prop :=
  ∀ c ∈ st.consumers, (∀ w ∈ st.walks, w.session ≠ c.session) → ∀ same,
    ∃ out, st.snapshot metadata same c.session = .ok out ∧
      ∀ (i : ℕ) (r : Registration σ), i < c.since → st.registrations[i]? = some r →
        r.isLive = true → out.1.values.lookup r.unit.key = c.values r.unit.key

/-- In every run, every cell is an exact fold and no watermark goes back; and when no call reads
the cells of a session in the middle of a walk on it, every consumer agrees with a fresh snapshot. -/
theorem drive_exactly_once {start st st' : Registry σ} {before after : List (Call σ)}
    (hinitial : start.Initial)
    (hown : Transition.Guarded (step metadata) (Own metadata) start (before ++ after))
    (hbefore : Transition.run (step metadata) start before = some st)
    (hafter : Transition.run (step metadata) st after = some st') :
    st'.ExactlyOnce metadata ∧ st.Advances st' ∧
      (Transition.Guarded (step metadata) Settled start (before ++ after) →
        st'.ConsumersAgree metadata) := by
  have hrun : Transition.run (step metadata) start (before ++ after) = some st' := by
    rw [Transition.run_append, hbefore]
    exact hafter
  have hinv : st'.Inv metadata :=
    Transition.run_induction_of_guarded (fun _ _ _ h ho hs => (step_inv h ho hs).1) hinitial.inv
      hown hrun
  refine ⟨?_, ?_, ?_⟩
  · intro r hr s cell hcell
    obtain ⟨n, hn⟩ := hinv.cells r hr s cell hcell
    exact ⟨n, hn.le, hn.observedSeq, hn.state⟩
  · have hown' := Transition.guarded_append hown
    have hinvBefore : st.Inv metadata :=
      Transition.run_induction_of_guarded (fun _ _ _ h ho hs => (step_inv h ho hs).1) hinitial.inv
        hown'.1 hbefore
    have hadvances : st'.Inv metadata ∧ st.Advances st' :=
      Transition.run_induction_of_guarded (motive := fun t => t.Inv metadata ∧ st.Advances t)
        (fun _ _ _ h ho hs => ⟨(step_inv h.1 ho hs).1, h.2.trans (step_inv h.1 ho hs).2⟩)
        ⟨hinvBefore, .refl st⟩ (hown'.2 st hbefore) hafter
    exact hadvances.2
  · intro hsettled c hc hidle same
    have hboth : Transition.Guarded (step metadata)
        (fun s call => Own metadata s call ∧ s.Settled call) start (before ++ after) :=
      hown.and hsettled
    have hsync : st'.Inv metadata ∧ ∀ c ∈ st'.consumers, c.InSync st' :=
      Transition.run_induction_of_guarded
        (motive := fun t => t.Inv metadata ∧ ∀ c ∈ t.consumers, c.InSync t)
        (fun _ _ _ h ho hs => ⟨(step_inv h.1 ho.1 hs).1, step_inSync h.1 h.2 ho.1 ho.2 hs⟩)
        ⟨hinitial.inv, by simp [hinitial.consumers]⟩ hboth hrun
    exact inSync_fresh hsync.1 (hsync.2 c hc) hidle same

end Registry

end

/-! ## A read in the middle of a walk -/

/-- Counts the events of a session. -/
def countUnit (key : String) : ProjectionUnit where
  key := key
  stateSchema := .ok
  init := fun _ _ => .int 0
  apply := fun state _ => match state with
    | .int n => .int (n + 1)
    | other => other
  wire := some ⟨.ok, id⟩
  stateVersion := 1
  stateSchema_fold := fun _ _ => rfl
  served_fold := fun _ _ => ⟨_, rfl⟩

def blankRegistry : Registry Unit := ⟨fun _ => [], [], [], 0, []⟩

def blankMetadata : Unit → SessionMetadata := fun _ => ⟨.null, 0⟩

/-- No apply returns its own state reference. -/
def allFresh : Identity := fun _ _ => false

def turnStart : SessionEvent := ⟨.turnStart, 0, 0, .null, none, none, none, []⟩

/-- The listener reads a snapshot when the first unit notifies it. -/
def readInWalk : List (Call Unit) :=
  [.register (countUnit "first"), .register (countUnit "second"), .subscribe allFresh (),
    .append () turnStart, .drive allFresh false, .snapshot allFresh (), .drive allFresh false,
    .drive allFresh false]

/-- A listener that reads a snapshot hides the change of every later unit from the consumer. -/
theorem Registry.snapshot_in_walk :
    blankRegistry.Initial ∧
      Transition.Guarded (Registry.step blankMetadata) (Registry.Own blankMetadata) blankRegistry
        readInWalk ∧
      ∃ st, Transition.run (Registry.step blankMetadata) blankRegistry readInWalk = some st ∧
        ¬ st.ConsumersAgree blankMetadata := by
  obtain ⟨st, hst⟩ : ∃ st, Transition.run (Registry.step blankMetadata) blankRegistry readInWalk
      = some st := Option.isSome_iff_exists.mp (by decide +kernel)
  refine ⟨⟨fun _ => rfl, rfl, rfl, rfl⟩, ?_, st, hst, ?_⟩
  · exact ⟨trivial, fun _ _ => ⟨trivial, fun _ _ => ⟨trivial, fun _ _ => ⟨trivial, fun _ _ =>
      ⟨trivial, fun _ _ => ⟨trivial, fun _ _ => ⟨trivial, fun _ _ => ⟨trivial, fun _ _ =>
        trivial⟩⟩⟩⟩⟩⟩⟩⟩
  · have hfacts : (Transition.run (Registry.step blankMetadata) blankRegistry readInWalk).all
        (fun st => st.walks.isEmpty
          ∧ st.consumers.map (fun c => (c.since, c.values "second")) = [(2, some (.int 0))]
          ∧ (st.registrations[1]?.map fun r => (r.isLive, r.unit.key)) = some (true, "second")
          ∧ ((st.snapshot blankMetadata allFresh ()).toOption.map
              (·.1.values.lookup "second")) = some (some (.int 1))) = true := by
      decide +kernel
    rw [hst, Option.all_some, decide_eq_true_eq] at hfacts
    obtain ⟨hwalks, hconsumers, hsecond, hfresh⟩ := hfacts
    obtain ⟨c, hc, hvalues⟩ := List.map_eq_singleton_iff.mp hconsumers
    rw [Prod.mk.injEq] at hvalues
    obtain ⟨r, hr, hunit⟩ := Option.map_eq_some_iff.mp hsecond
    rw [Prod.mk.injEq] at hunit
    intro hagree
    have hidle : ∀ w ∈ st.walks, w.session ≠ c.session := by
      rw [List.isEmpty_iff.mp hwalks]
      simp
    obtain ⟨out, hout, hlookup⟩ := hagree c (by rw [hc]; simp) hidle allFresh
    have hsame := hlookup 1 r (by omega) hr hunit.1
    rw [hout] at hfresh
    have hvalue : out.1.values.lookup "second" = some (.int 1) := Option.some.inj hfresh
    rw [hunit.2, hvalues.2, hvalue] at hsame
    cases hsame

/-- The same run without the read. -/
def driveAlone : List (Call Unit) :=
  [.register (countUnit "first"), .subscribe allFresh (), .append () turnStart,
    .drive allFresh false, .drive allFresh false]

theorem Registry.drive_exactly_once_alone :
    ∃ st, Transition.run (Registry.step blankMetadata) blankRegistry driveAlone = some st ∧
      st.ExactlyOnce blankMetadata ∧ blankRegistry.Advances st ∧ st.ConsumersAgree blankMetadata := by
  have hown : Transition.Guarded (Registry.step blankMetadata) (Registry.Own blankMetadata)
      blankRegistry ([] ++ driveAlone) :=
    ⟨trivial, fun _ _ => ⟨trivial, fun _ _ => ⟨trivial, fun _ _ => ⟨trivial, fun _ _ =>
      ⟨trivial, fun _ _ => trivial⟩⟩⟩⟩⟩
  have hsettled : Transition.Guarded (Registry.step blankMetadata) Registry.Settled blankRegistry
      ([] ++ driveAlone) := by
    refine ⟨trivial, ?_⟩
    intro st hst
    have hwalks : st.walks = [] := by
      cases hst
      rfl
    refine ⟨?_, fun _ _ => ⟨trivial, fun _ _ => ⟨trivial, fun _ _ => ⟨trivial, fun _ _ => trivial⟩⟩⟩⟩
    intro w hw
    rw [hwalks] at hw
    cases hw
  obtain ⟨st, hst⟩ : ∃ st, Transition.run (Registry.step blankMetadata) blankRegistry driveAlone
      = some st := Option.isSome_iff_exists.mp (by decide +kernel)
  have hinitial : blankRegistry.Initial := ⟨fun _ => rfl, rfl, rfl, rfl⟩
  obtain ⟨honce, hadvances, hagree⟩ := Registry.drive_exactly_once hinitial hown rfl hst
  exact ⟨st, hst, honce, hadvances, hagree hsettled⟩

end Projection

end TianmaCoder
