import TianmaCoder.Projection.Registry
import TianmaCoder.Projection.Restore

/-!
# The drive is exactly-once

Every cell is the fold of its unit over the prefix of the log that ends at its watermark, and
its current view, when there is one, is the view of its state. Each operation replaces a cell
by one that covers at least the same prefix, so no watermark ever goes back.

## Main definitions

* `CellAt` — a cell covers the first events of a log.
* `Registration.Updates` — one session's cell is replaced by one that covers no less.
* `Registry.Inv`, `Registry.Advances` — what holds in every state, and between two of a run.

## Main results

* `advanceCell_spec`, `driveCell_spec` — the operations on a cell.
* `Registry.step_inv` — every call keeps the invariant and advances the cells.
-/

set_option linter.unusedSectionVars false

namespace TianmaCoder

namespace Projection

open Checked

/-! ## Cells -/

/-- The cell covers the first `n` events, and its current view is that of its state. -/
structure CellAt (d : ProjectionDefinition) (session : SessionMetadata) (log : List SessionEvent)
    (n : ℕ) (cell : UnitCell) : Prop where
  le : n ≤ log.length
  observedSeq : cell.observedSeq = (n : ℤ) - 1
  state : cell.state = d.fold session (log.take n)
  view : ∀ v, cell.views.2 = some v → ∀ wire, d.wire = some wire → v = wire.view cell.state

section

variable {d : ProjectionDefinition} {session : SessionMetadata} {log : List SessionEvent} {n m : ℕ}
  {cell cell' : UnitCell}

theorem CellAt.of_le (h : CellAt d session log n cell) {log' : List SessionEvent}
    (hpre : log <+: log') : CellAt d session log' n cell := by
  obtain ⟨rest, rfl⟩ := hpre
  have hle := h.le
  refine ⟨by rw [List.length_append]; omega, h.observedSeq, ?_, h.view⟩
  rw [List.take_append_of_le_length hle, h.state]

theorem fold_succ (hn : n < log.length) :
    d.fold session (log.take (n + 1)) = d.apply (d.fold session (log.take n)) log[n] := by
  rw [List.take_succ_eq_append_getElem hn, ProjectionDefinition.fold, List.foldl_append]
  rfl

variable {event : SessionEvent}

section

variable (h : Contiguous log)
include h

theorem Contiguous.append (hseq : event.seq = log.length) :
    Contiguous (log ++ [event]) := by
  unfold Contiguous at h ⊢
  rw [List.map_append, h, List.length_append, List.length_singleton, List.range_succ]
  simp [hseq]

theorem Contiguous.seq_eq (hn : log[n]? = some event) : event.seq = n := by
  have hmap : (log.map (·.seq))[n]? = some event.seq := by simp [hn]
  rw [h] at hmap
  have ⟨_, hget⟩ := List.getElem?_eq_some_iff.mp hmap
  simpa using hget.symm

theorem buildCell_take (hn : n ≤ log.length) :
    CellAt d session log n (buildCell d session (log.take n)) := by
  refine ⟨hn, ?_, rfl, by simp [buildCell]⟩
  unfold buildCell
  dsimp only
  cases hlast : (log.take n).getLast? with
  | none =>
    have hnil := List.getLast?_eq_none_iff.mp hlast
    have hlength : (log.take n).length = 0 := by rw [hnil]; rfl
    rw [List.length_take] at hlength
    dsimp only
    omega
  | some event =>
    have hseq := (h.take n).getLast hlast
    have hpos : (log.take n) ≠ [] := by
      intro hnil
      rw [hnil] at hlast
      cases hlast
    have hlength := List.length_pos_iff.mpr hpos
    rw [List.length_take] at hseq hlength
    dsimp only
    omega

theorem passEvent_spec (hcell : CellAt d session log n cell)
    (hevent : log[n]? = some event) (same : Bool) :
    CellAt d session log (n + 1) (passEvent d same cell event) := by
  have ⟨hlt, hget⟩ := List.getElem?_eq_some_iff.mp hevent
  have hseq := h.seq_eq hevent
  refine ⟨hlt, ?_, ?_, ?_⟩
  · simp [passEvent, hseq]
  · simp only [passEvent]
    rw [fold_succ hlt, hcell.state, hget]
  · intro v hv wire hwire
    simp only [passEvent] at hv ⊢
    split at hv
    · next hsame =>
        have heq : d.apply cell.state event = cell.state := by
          simp only [objectIs, Bool.and_eq_true, decide_eq_true_eq] at hsame
          exact hsame.2
        rw [heq]
        exact hcell.view v hv wire hwire
    · cases hv

/-- A cell advances to the end of the prefix, or stays where it is past it. -/
theorem advanceCell_spec (hcell : CellAt d session log n cell)
    (hm : m ≤ log.length) (same : Identity) :
    ∃ cell', advanceCell d same log (cursorBefore m) cell = .ok cell' ∧
      CellAt d session log (max n m) cell' ∧ (m ≤ n → cell' = cell) := by
  have hstart : (cell.observedSeq + 1).toNat = n := by
    have := hcell.observedSeq
    omega
  have hcount : (cursorBefore m - cell.observedSeq).toNat = m - n := by
    have := hcell.observedSeq
    unfold cursorBefore
    omega
  unfold advanceCell
  rw [hstart, hcount]
  clear hstart hcount
  generalize hk : m - n = k
  induction k generalizing n cell with
  | zero =>
    have hmax : max n m = n := by omega
    rw [hmax]
    exact ⟨cell, rfl, hcell, fun _ => rfl⟩
  | succ k ih =>
    have hlt : n < log.length := by omega
    have hget : log[n]? = some log[n] := List.getElem?_eq_getElem hlt
    have hpass := passEvent_spec h hcell hget (same d.key n)
    obtain ⟨cell', hrun, hspec, _⟩ := ih hpass (by omega)
    refine ⟨cell', ?_, ?_, by omega⟩
    · rw [List.range'_succ, List.foldlM_cons]
      simp only [hget, h.seq_eq hget, if_true, pure_eq, ok_bind]
      exact hrun
    · have hmax : max (n + 1) m = max n m := by omega
      rw [hmax] at hspec
      exact hspec

theorem cellFor_spec {cell? : Option UnitCell}
    (hcell : ∀ cell, cell? = some cell → ∃ n, CellAt d session log n cell) (same : Identity) :
    ∃ cell', cellFor d same session log cell? = .ok cell' ∧ CellAt d session log log.length cell' := by
  cases cell? with
  | none =>
    have hbuild : CellAt d session log log.length (buildCell d session (log.take log.length)) :=
      buildCell_take h (Nat.le_refl log.length)
    rw [List.take_length] at hbuild
    exact ⟨_, rfl, hbuild⟩
  | some cell =>
    obtain ⟨n, hn⟩ := hcell cell rfl
    obtain ⟨cell', hrun, hspec, _⟩ := advanceCell_spec h hn (Nat.le_refl log.length) same
    have hmax : max n log.length = log.length := by
      have := hn.le
      omega
    rw [hmax] at hspec
    exact ⟨cell', hrun, hspec⟩

end

end

variable {event : SessionEvent} {u : ProjectionUnit} {session : SessionMetadata}

theorem driveCell_spec {log : List SessionEvent} {n : ℕ} {cell : UnitCell}
    (hcell : CellAt u.toProjectionDefinition session log n cell) (hevent : log[n]? = some event)
    (hseq : event.seq = n) (same sameView listening : Bool) :
    ∃ after value, Registry.driveCell u.toProjectionDefinition same sameView listening cell event
        = .ok (after, value) ∧
      CellAt u.toProjectionDefinition session log (n + 1) after ∧
      (listening = true → ∀ served, u.served cell.state = .ok served →
        u.served after.state = .ok (value.or served)) := by
  have ⟨hlt, hget⟩ := List.getElem?_eq_some_iff.mp hevent
  have hnext : u.apply cell.state event = u.fold session (log.take (n + 1)) := by
    rw [fold_succ hlt, hcell.state, hget]
  have hafter : ∀ views : Option Json × Option Json,
      (∀ v, views.2 = some v → ∀ wire, u.wire = some wire → v = wire.view (u.apply cell.state event)) →
      CellAt u.toProjectionDefinition session log (n + 1)
        ⟨u.apply cell.state event, event.seq, views⟩ :=
    fun views hviews => ⟨hlt, by simp [hseq], hnext, hviews⟩
  have hkept : objectIs same (u.apply cell.state event) cell.state = true →
      u.apply cell.state event = cell.state := by
    intro hsame
    simp only [objectIs, Bool.and_eq_true, decide_eq_true_eq] at hsame
    exact hsame.2
  unfold Registry.driveCell
  dsimp only
  split
  · next wire hchanged hwire =>
      cases listening with
      | false =>
        refine ⟨_, _, rfl, hafter _ (by simp), by simp⟩
      | true =>
        have hview : ∀ v, (cell.views.2, some (wire.view (u.apply cell.state event))).2 = some v →
            ∀ wire', u.wire = some wire' → v = wire'.view (u.apply cell.state event) := by
          intro v hv wire' hwire'
          rw [hwire] at hwire'
          cases hwire'
          exact (Option.some.inj hv).symm
        rw [if_pos rfl]
        split
        · next hequal =>
            refine ⟨_, _, rfl, hafter _ hview, ?_⟩
            intro _ served hserved
            simp only [objectIs, Bool.and_eq_true, decide_eq_true_eq] at hequal
            have hsame := hcell.view _ hequal.2 wire hwire
            simp only [ProjectionDefinition.served, hwire] at hserved ⊢
            rw [hsame, hserved]
            rfl
        · obtain ⟨served, hserved⟩ := u.served_fold session (log.take (n + 1))
          rw [← hnext] at hserved
          simp only [ProjectionDefinition.served, hwire] at hserved
          obtain ⟨value, hvalue, _⟩ := bind_ok hserved
          refine ⟨⟨u.apply cell.state event, event.seq, _⟩, some value, ?_, hafter _ hview, ?_⟩
          · rw [hvalue]
            rfl
          · intro _ _ _
            simp only [ProjectionDefinition.served, hwire, hvalue]
            rfl
  · next hother =>
      refine ⟨_, _, rfl, hafter _ ?_, ?_⟩
      · intro v hv wire hwire
        cases hsame : objectIs same (u.apply cell.state event) cell.state with
        | false => exact (hother wire hsame hwire).elim
        | true =>
          rw [hkept hsame]
          exact hcell.view v hv wire hwire
      · intro _ served hserved
        cases hwire : u.wire with
        | none =>
          simp only [ProjectionDefinition.served, hwire] at hserved ⊢
          exact hserved
        | some wire =>
          cases hsame : objectIs same (u.apply cell.state event) cell.state with
          | false => exact (hother wire hsame hwire).elim
          | true =>
            rw [hkept hsame]
            exact hserved

/-! ## The registry -/

section

variable {σ : Type} [DecidableEq σ]

/-- The cell of one session is replaced, if at all, by one that covers no less. -/
structure Registration.Updates (metadata : σ → SessionMetadata) (logs : σ → List SessionEvent)
    (s : σ) (r r' : Registration σ) : Prop where
  unit : r'.unit = r.unit
  refs : r'.refs = r.refs
  others : ∀ s', s' ≠ s → r'.cells s' = r.cells s'
  cell : r'.cells s = r.cells s ∨ ∃ n cell', r'.cells s = some cell' ∧
    CellAt r.unit.toProjectionDefinition (metadata s) (logs s) n cell' ∧
    ∀ cell, r.cells s = some cell → cell.observedSeq ≤ cell'.observedSeq

variable {metadata : σ → SessionMetadata} {logs : σ → List SessionEvent} {s : σ}

theorem Registration.Updates.refl (r : Registration σ) : Registration.Updates metadata logs s r r :=
  ⟨rfl, rfl, fun _ _ => rfl, .inl rfl⟩

theorem Registration.setCell_self (r : Registration σ) (s : σ) (cell : UnitCell) :
    (r.setCell s cell).cells s = some cell := by
  simp [Registration.setCell]

variable {r : Registration σ}

theorem Registration.Updates.setCell {n : ℕ} {cell' : UnitCell}
    (hcell : CellAt r.unit.toProjectionDefinition (metadata s) (logs s) n cell')
    (hle : ∀ cell, r.cells s = some cell → cell.observedSeq ≤ cell'.observedSeq) :
    Registration.Updates metadata logs s r (r.setCell s cell') := by
  refine ⟨rfl, rfl, ?_, .inr ⟨n, cell', r.setCell_self s cell', hcell, hle⟩⟩
  intro s' hne
  simp [Registration.setCell, hne]

namespace Registry

/-- What holds of every registry. -/
structure Inv (metadata : σ → SessionMetadata) (st : Registry σ) : Prop where
  contiguous : ∀ s, Contiguous (st.logs s)
  cells : ∀ r ∈ st.registrations, ∀ s cell, r.cells s = some cell →
    ∃ n, CellAt r.unit.toProjectionDefinition (metadata s) (st.logs s) n cell
  walks : ∀ w ∈ st.walks, w.event.seq + 1 = (st.logs w.session).length ∧
    (st.logs w.session)[w.event.seq]? = some w.event
  distinct : (st.walks.map (·.session)).Nodup
  keys : ∀ (i j : ℕ) (r r' : Registration σ), st.registrations[i]? = some r →
    st.registrations[j]? = some r' → r.isLive = true → r'.isLive = true →
    r.unit.key = r'.unit.key → i = j

/-- No log shrinks, no watermark goes back, and a deleted slot stays deleted. -/
structure Advances (st st' : Registry σ) : Prop where
  logs : ∀ s, st.logs s <+: st'.logs s
  slots : ∀ (i : ℕ) (r : Registration σ), st.registrations[i]? = some r →
    ∃ r', st'.registrations[i]? = some r' ∧ r'.unit = r.unit ∧
      (r.isLive = false → r'.isLive = false) ∧
      ∀ s cell, r.cells s = some cell →
        ∃ cell', r'.cells s = some cell' ∧ cell.observedSeq ≤ cell'.observedSeq

theorem Advances.refl (st : Registry σ) : st.Advances st :=
  ⟨fun _ => List.prefix_refl _, fun _ r hr => ⟨r, hr, rfl, id, fun _ cell hcell =>
    ⟨cell, hcell, Int.le_refl _⟩⟩⟩

variable {st st' : Registry σ}

theorem Advances.trans {st'' : Registry σ} (h : st.Advances st') (h' : st'.Advances st'') :
    st.Advances st'' := by
  refine ⟨fun s => (h.logs s).trans (h'.logs s), ?_⟩
  intro i r hr
  obtain ⟨r', hr', hunit, hlive, hcells⟩ := h.slots i r hr
  obtain ⟨r'', hr'', hunit', hlive', hcells'⟩ := h'.slots i r' hr'
  refine ⟨r'', hr'', hunit'.trans hunit, fun hdead => hlive' (hlive hdead), ?_⟩
  intro s cell hcell
  obtain ⟨cell', hcell', hle⟩ := hcells s cell hcell
  obtain ⟨cell'', hcell'', hle'⟩ := hcells' s cell' hcell'
  exact ⟨cell'', hcell'', by omega⟩

theorem forall₂_getElem? {α β : Type} {R : α → β → Prop} {xs : List α} {ys : List β}
    (h : List.Forall₂ R xs ys) (i : ℕ) :
    (∀ x, xs[i]? = some x → ∃ y, ys[i]? = some y ∧ R x y) ∧
      ∀ y, ys[i]? = some y → ∃ x, xs[i]? = some x ∧ R x y := by
  induction h generalizing i with
  | nil => simp
  | @cons x y xs ys hxy _ ih =>
    cases i with
    | zero => simp [hxy]
    | succ i => simpa using ih i

theorem isLive_of_refs {r' : Registration σ} (h : r'.refs = r.refs) : r'.isLive = r.isLive := by
  simp [Registration.isLive, h]

/-- Replacing cells of one session by ones that cover no less. -/
theorem Inv.updates (h : st.Inv metadata) {registrations : List (Registration σ)}
    {walks : List (Walk σ)} {consumers : List (Consumer σ)}
    (hregistrations : List.Forall₂ (Registration.Updates metadata st.logs s) st.registrations
      registrations)
    (hwalks : ∀ w ∈ walks, ∃ w₀ ∈ st.walks, w.session = w₀.session ∧ w.event = w₀.event)
    (hdistinct : (walks.map (·.session)).Nodup) :
    Inv metadata ⟨st.logs, registrations, walks, st.observers, consumers⟩ ∧
      st.Advances ⟨st.logs, registrations, walks, st.observers, consumers⟩ := by
  constructor
  · refine ⟨h.contiguous, ?_, ?_, hdistinct, ?_⟩
    · intro r' hr' s' cell' hcell'
      obtain ⟨i, hi⟩ := List.getElem?_of_mem hr'
      obtain ⟨r, hr, hupdates⟩ := (forall₂_getElem? hregistrations i).2 r' hi
      have hmem := List.mem_of_getElem? hr
      rw [hupdates.unit]
      by_cases hs : s' = s
      · subst hs
        rcases hupdates.cell with heq | ⟨n, cell, hcell, hat, _⟩
        · exact h.cells r hmem s' cell' (heq ▸ hcell')
        · rw [hcell] at hcell'
          cases hcell'
          exact ⟨n, hat⟩
      · rw [hupdates.others s' hs] at hcell'
        exact h.cells r hmem s' cell' hcell'
    · intro w hw
      obtain ⟨w₀, hw₀, hsession, hevent⟩ := hwalks w hw
      rw [hsession, hevent]
      exact h.walks w₀ hw₀
    · intro i j r r' hr hr' hlive hlive' hkey
      obtain ⟨r₀, hr₀, hupdates⟩ := (forall₂_getElem? hregistrations i).2 r hr
      obtain ⟨r₀', hr₀', hupdates'⟩ := (forall₂_getElem? hregistrations j).2 r' hr'
      refine h.keys i j r₀ r₀' hr₀ hr₀' ?_ ?_ ?_
      · rw [← isLive_of_refs hupdates.refs]
        exact hlive
      · rw [← isLive_of_refs hupdates'.refs]
        exact hlive'
      · rw [← hupdates.unit, ← hupdates'.unit]
        exact hkey
  · refine ⟨fun _ => List.prefix_refl _, ?_⟩
    intro i r hr
    obtain ⟨r', hr', hupdates⟩ := (forall₂_getElem? hregistrations i).1 r hr
    refine ⟨r', hr', hupdates.unit, ?_, ?_⟩
    · rw [isLive_of_refs hupdates.refs]
      exact id
    · intro s' cell hcell
      by_cases hs : s' = s
      · subst hs
        rcases hupdates.cell with heq | ⟨n, cell', hcell', _, hle⟩
        · exact ⟨cell, by rw [heq, hcell], Int.le_refl _⟩
        · exact ⟨cell', hcell', hle cell hcell⟩
      · exact ⟨cell, by rw [hupdates.others s' hs, hcell], Int.le_refl _⟩

/-! ## Reads -/

theorem materialize_spec (h : st.Inv metadata) (same : Identity) (s : σ) (hr : r ∈ st.registrations) :
    ∃ r', Registration.materialize metadata same s (st.logs s) r = .ok r' ∧
      Registration.Updates metadata st.logs s r r' ∧
      (r.isLive = true → ∃ cell, r'.cells s = some cell ∧
        CellAt r.unit.toProjectionDefinition (metadata s) (st.logs s) (st.logs s).length cell) := by
  unfold Registration.materialize
  by_cases hlive : r.isLive = true
  · obtain ⟨cell, hcell, hat⟩ := cellFor_spec (h.contiguous s) (h.cells r hr s) same
    rw [if_pos hlive, hcell]
    refine ⟨r.setCell s cell, rfl, .setCell hat ?_, fun _ => ⟨cell, r.setCell_self s cell, hat⟩⟩
    intro cell₀ hcell₀
    obtain ⟨n, hn⟩ := h.cells r hr s cell₀ hcell₀
    have hle := hn.le
    rw [hn.observedSeq, hat.observedSeq]
    omega
  · rw [if_neg hlive]
    exact ⟨r, rfl, .refl r, fun hlive' => absurd hlive' hlive⟩

theorem materializeCells_spec (h : st.Inv metadata) (same : Identity) (s : σ) :
    ∃ registrations, st.materializeCells metadata same s
        = .ok ⟨st.logs, registrations, st.walks, st.observers, st.consumers⟩ ∧
      List.Forall₂ (fun r r' => Registration.Updates metadata st.logs s r r' ∧
        (r.isLive = true → ∃ cell, r'.cells s = some cell ∧
          CellAt r.unit.toProjectionDefinition (metadata s) (st.logs s) (st.logs s).length cell))
        st.registrations registrations := by
  have hmap : ∀ registrations : List (Registration σ), (∀ r ∈ registrations, r ∈ st.registrations) →
      ∃ registrations', registrations.mapM (Registration.materialize metadata same s (st.logs s))
          = .ok registrations' ∧
        List.Forall₂ (fun r r' => Registration.Updates metadata st.logs s r r' ∧
          (r.isLive = true → ∃ cell, r'.cells s = some cell ∧
            CellAt r.unit.toProjectionDefinition (metadata s) (st.logs s) (st.logs s).length cell))
          registrations registrations' := by
    intro registrations hmem
    induction registrations with
    | nil => exact ⟨[], rfl, .nil⟩
    | cons r registrations ih =>
      rw [List.forall_mem_cons] at hmem
      obtain ⟨r', hr', hspec⟩ := materialize_spec h same s hmem.1
      obtain ⟨rest, hrest, hspecs⟩ := ih hmem.2
      refine ⟨r' :: rest, ?_, .cons hspec hspecs⟩
      rw [List.mapM_cons, hr', hrest]
      rfl
  obtain ⟨registrations, hregistrations, hspecs⟩ := hmap st.registrations fun _ => id
  refine ⟨registrations, ?_, hspecs⟩
  rw [materializeCells, hregistrations]
  rfl

theorem Inv.materialized (h : st.Inv metadata) {same : Identity}
    (hstep : st.materializeCells metadata same s = .ok st') :
    st'.Inv metadata ∧ st.Advances st' := by
  obtain ⟨registrations, hregistrations, hspecs⟩ := materializeCells_spec h same s
  rw [hregistrations] at hstep
  cases hstep
  exact h.updates (hspecs.imp fun _ _ hr => hr.1) (fun w hw => ⟨w, hw, rfl, rfl⟩) h.distinct

theorem snapshot_ok {same : Identity} {fresh : ProjectionSnapshot}
    (h : st.snapshot metadata same s = .ok (fresh, st')) :
    st.materializeCells metadata same s = .ok st' ∧
      ∃ entries, st'.registrations.mapM (Registration.servedEntry s) = .ok entries ∧
        fresh.values = entries.filterMap id := by
  obtain ⟨st₁, hst₁, h⟩ := bind_ok h
  obtain ⟨entries, hentries, h⟩ := bind_ok h
  cases h
  exact ⟨hst₁, entries, hentries, rfl⟩

/-! ## Sessions -/

theorem created_inv (h : st.Inv metadata) (s : σ) :
    (st.created metadata s).Inv metadata ∧ st.Advances (st.created metadata s) := by
  unfold created
  split
  · next hnil =>
      refine h.updates (s := s) ?_ (fun w hw => ⟨w, hw, rfl, rfl⟩) h.distinct
      rw [List.forall₂_map_right_iff, List.forall₂_same]
      intro r _
      split
      · next hnone =>
          have hcell : r.cells s = none := by simpa using (Bool.and_eq_true_iff.mp hnone).2
          refine .setCell (n := 0) ⟨Nat.zero_le _, rfl, ?_, by simp⟩ ?_
          · rw [List.take_zero]
          · intro cell hsome
            rw [hcell] at hsome
            cases hsome
      · exact .refl r
  · exact ⟨h, .refl st⟩

theorem append_inv (h : st.Inv metadata) (hstep : st.append s event = .ok st') :
    st'.Inv metadata ∧ st.Advances st' := by
  unfold append at hstep
  split at hstep
  · cases hstep
  · next hidle =>
      cases hstep
      have hpre : ∀ s', st.logs s' <+: Function.update st.logs s
          (st.logs s ++ [{ event with seq := (st.logs s).length }]) s' := by
        intro s'
        by_cases hs : s' = s
        · subst hs
          simp
        · simp [hs]
      have hother : ∀ w ∈ st.walks, w.session ≠ s := by
        intro w hw heq
        exact hidle (List.any_eq_true.mpr ⟨w, hw, by simp [heq]⟩)
      refine ⟨⟨?_, ?_, ?_, ?_, h.keys⟩, ⟨hpre, ?_⟩⟩
      · intro s'
        by_cases hs : s' = s
        · subst hs
          simp only [Function.update_self]
          exact (h.contiguous s').append rfl
        · simpa [hs] using h.contiguous s'
      · intro r hr s' cell hcell
        obtain ⟨n, hn⟩ := h.cells r hr s' cell hcell
        exact ⟨n, hn.of_le (hpre s')⟩
      · intro w hw
        rcases List.mem_cons.mp hw with rfl | hw
        · simp
        · have hne := hother w hw
          simpa [hne] using h.walks w hw
      · rw [List.map_cons, List.nodup_cons]
        refine ⟨?_, h.distinct⟩
        intro hmem
        obtain ⟨w, hw, heq⟩ := List.mem_map.mp hmem
        exact hother w hw heq
      · exact (Advances.refl st).slots

/-! ## Registrations -/

variable {key : String}

theorem find?_eq_some {slot : ℕ} (h : st.find? key = some slot) :
    ∃ r, st.registrations[slot]? = some r ∧ r.isLive = true ∧ r.unit.key = key := by
  have ⟨hlt, hp, _⟩ := List.findIdx?_eq_some_iff_getElem.mp h
  rw [Bool.and_eq_true, beq_iff_eq] at hp
  exact ⟨_, List.getElem?_eq_getElem hlt, hp.1, hp.2⟩

theorem find?_eq_none (h : st.find? key = none) :
    ∀ r ∈ st.registrations, r.isLive = true → r.unit.key ≠ key := by
  intro r hr hlive hkey
  have hnone := List.findIdx?_eq_none_iff.mp h r hr
  simp [hlive, hkey] at hnone

theorem Inv.recount (h : st.Inv metadata) {slot : ℕ} (hr : st.registrations[slot]? = some r)
    (hlive : r.isLive = true) (refs : ℕ) :
    Inv metadata ⟨st.logs, st.registrations.set slot ⟨r.unit, r.cells, refs⟩, st.walks,
        st.observers, st.consumers⟩ ∧
      st.Advances ⟨st.logs, st.registrations.set slot ⟨r.unit, r.cells, refs⟩, st.walks,
        st.observers, st.consumers⟩ := by
  have hget : ∀ i : ℕ, (st.registrations.set slot ⟨r.unit, r.cells, refs⟩)[i]?
      = if slot = i then some ⟨r.unit, r.cells, refs⟩ else st.registrations[i]? := by
    intro i
    obtain ⟨hlt, -⟩ := List.getElem?_eq_some_iff.mp hr
    rw [List.getElem?_set]
    by_cases hi : slot = i
    · subst hi
      simp [hlt]
    · simp [hi]
  have hback : ∀ (i : ℕ) (r' : Registration σ), (st.registrations.set slot ⟨r.unit, r.cells, refs⟩)[i]? = some r' →
      ∃ r₀, st.registrations[i]? = some r₀ ∧ r'.unit = r₀.unit ∧ r'.cells = r₀.cells ∧
        (r'.isLive = true → r₀.isLive = true) := by
    intro i r' hr'
    rw [hget] at hr'
    split at hr'
    · next hi =>
        cases hr'
        exact ⟨r, hi ▸ hr, rfl, rfl, fun _ => hlive⟩
    · exact ⟨r', hr', rfl, rfl, id⟩
  refine ⟨⟨h.contiguous, ?_, h.walks, h.distinct, ?_⟩, ⟨fun _ => List.prefix_refl _, ?_⟩⟩
  · intro r' hr' s cell hcell
    obtain ⟨i, hi⟩ := List.getElem?_of_mem hr'
    obtain ⟨r₀, hr₀, hunit, hcells, _⟩ := hback i r' hi
    rw [hunit]
    exact h.cells r₀ (List.mem_of_getElem? hr₀) s cell (hcells ▸ hcell)
  · intro i j r₁ r₂ hr₁ hr₂ hlive₁ hlive₂ hkey
    obtain ⟨r₁', hr₁', hunit₁, _, hlive₁'⟩ := hback i r₁ hr₁
    obtain ⟨r₂', hr₂', hunit₂, _, hlive₂'⟩ := hback j r₂ hr₂
    rw [hunit₁, hunit₂] at hkey
    exact h.keys i j r₁' r₂' hr₁' hr₂' (hlive₁' hlive₁) (hlive₂' hlive₂) hkey
  · intro i r₀ hr₀
    rw [hget]
    by_cases hi : slot = i
    · subst hi
      rw [hr] at hr₀
      cases hr₀
      refine ⟨_, if_pos rfl, rfl, ?_, fun _ cell hcell => ⟨cell, hcell, Int.le_refl _⟩⟩
      rw [hlive]
      intro hdead
      cases hdead
    · exact ⟨r₀, by rw [if_neg hi, hr₀], rfl, id, fun _ cell hcell => ⟨cell, hcell, Int.le_refl _⟩⟩

theorem register_inv (h : st.Inv metadata) {unit : ProjectionUnit}
    (hstep : st.register unit = .ok st') : st'.Inv metadata ∧ st.Advances st' := by
  unfold register at hstep
  split at hstep
  · next hnone =>
      cases hstep
      have hfresh := find?_eq_none hnone
      have hback : ∀ (i : ℕ) (r : Registration σ),
          (st.registrations ++ [⟨unit, fun _ => none, 1⟩])[i]? = some r →
          (st.registrations[i]? = some r ∧ i < st.registrations.length) ∨
            (i = st.registrations.length ∧ r = ⟨unit, fun _ => none, 1⟩) := by
        intro i r hr
        rw [List.getElem?_append] at hr
        split at hr
        · next hlt => exact .inl ⟨hr, hlt⟩
        · next hge =>
            have ⟨hlt, hget⟩ := List.getElem?_eq_some_iff.mp hr
            rw [List.length_singleton] at hlt
            exact .inr ⟨by omega, by simpa using hget.symm⟩
      refine ⟨⟨h.contiguous, ?_, h.walks, h.distinct, ?_⟩, ⟨fun _ => List.prefix_refl _, ?_⟩⟩
      · intro r hr s cell hcell
        rcases List.mem_append.mp hr with hr | hr
        · exact h.cells r hr s cell hcell
        · rw [List.mem_singleton.mp hr] at hcell
          cases hcell
      · intro i j r r' hr hr' hlive hlive' hkey
        rcases hback i r hr with ⟨hr, _⟩ | ⟨hi, rfl⟩
        · rcases hback j r' hr' with ⟨hr', _⟩ | ⟨hj, rfl⟩
          · exact h.keys i j r r' hr hr' hlive hlive' hkey
          · exact absurd hkey (hfresh r (List.mem_of_getElem? hr) hlive)
        · rcases hback j r' hr' with ⟨hr', _⟩ | ⟨hj, rfl⟩
          · exact absurd hkey.symm (hfresh r' (List.mem_of_getElem? hr') hlive')
          · omega
      · intro i r hr
        have ⟨hlt, _⟩ := List.getElem?_eq_some_iff.mp hr
        refine ⟨r, ?_, rfl, id, fun _ cell hcell => ⟨cell, hcell, Int.le_refl _⟩⟩
        rw [List.getElem?_append_left hlt, hr]
  · next slot hslot =>
      obtain ⟨r, hr, hlive, _⟩ := find?_eq_some hslot
      simp only [hr] at hstep
      split at hstep
      · cases hstep
      · cases hstep
        exact h.recount hr hlive (r.refs + 1)

theorem release_inv (h : st.Inv metadata) (key : String) :
    (st.release key).Inv metadata ∧ st.Advances (st.release key) := by
  unfold release
  split
  · exact ⟨h, .refl st⟩
  · next slot hslot =>
      obtain ⟨r, hr, hlive, _⟩ := find?_eq_some hslot
      simp only [hr]
      exact h.recount hr hlive (r.refs - 1)

/-! ## Hydration -/

theorem mem_units : u ∈ st.units ↔ ∃ r ∈ st.registrations, r.isLive = true ∧ r.unit = u := by
  simp [units, and_assoc]

theorem Inv.unit_eq (h : st.Inv metadata) (hr : r ∈ st.registrations) (hlive : r.isLive = true)
    (hu : u ∈ st.units) (hkey : u.key = r.unit.key) : u = r.unit := by
  obtain ⟨r', hr', hlive', rfl⟩ := mem_units.mp hu
  obtain ⟨i, hi⟩ := List.getElem?_of_mem hr
  obtain ⟨j, hj⟩ := List.getElem?_of_mem hr'
  have heq := h.keys j i r' r hj hi hlive' hlive hkey
  subst heq
  rw [hj] at hi
  cases hi
  rfl

theorem mem_of_lookup {β : Type} {value : β} {entries : List (String × β)}
    (h : entries.lookup key = some value) : (key, value) ∈ entries := by
  induction entries with
  | nil => cases h
  | cons entry entries ih =>
    obtain ⟨key', value'⟩ := entry
    rw [OrderedMap.lookup_cons_ite] at h
    split at h
    · next heq =>
        cases h
        simp [heq]
    · exact List.mem_cons_of_mem _ (ih h)

theorem restore_lookup {registrations : List ProjectionDefinition} {rows : ProjectionCheckpoint}
    {events : List SessionEvent} {base : ℕ} {restored : ProjectionSnapshot × ProjectionCheckpoint}
    (h : restore registrations rows events base session = .ok restored)
    {row : ProjectionCheckpointRow} (hrow : restored.2.lookup key = some row) :
    ∃ d ∈ registrations, ∃ value, restoreUnit rows events base session d = .ok (key, value, row) := by
  obtain ⟨entries, hentries, h⟩ := bind_ok h
  cases h
  obtain ⟨entry, hentry, heq⟩ := List.mem_map.mp (mem_of_lookup hrow)
  obtain ⟨key', value, row'⟩ := entry
  cases heq
  obtain ⟨i, hi⟩ := List.getElem?_of_mem hentry
  obtain ⟨d, hd, hok⟩ := (forall₂_getElem? (forall₂_of_mapM hentries) i).2 _ hi
  exact ⟨d, List.mem_of_getElem? hd, value, hok⟩

theorem hydrate_inv (h : st.Inv metadata) {rows : ProjectionCheckpoint} {count base : ℕ}
    (hrows : RowsOver st.units (metadata s) (st.logs s) rows)
    {out : ProjectionSnapshot × Registry σ}
    (hstep : st.hydrate metadata s rows (((st.logs s).take count).drop base) base = .ok out) :
    (∃ registrations, out.2 = ⟨st.logs, registrations, st.walks, st.observers, st.consumers⟩ ∧
      List.Forall₂ (Registration.Updates metadata st.logs s) st.registrations registrations) := by
  unfold hydrate at hstep
  dsimp only at hstep
  split at hstep
  · obtain ⟨entries, _, hstep⟩ := bind_ok hstep
    cases hstep
    exact ⟨st.registrations, rfl, List.forall₂_same.mpr fun r _ => .refl r⟩
  · obtain ⟨restored, hrestored, hstep⟩ := bind_ok hstep
    cases hstep
    refine ⟨_, rfl, ?_⟩
    rw [List.forall₂_map_right_iff, List.forall₂_same]
    intro r hr
    have hrow : r.isLive = true → ∀ row, restored.2.lookup r.unit.key = some row →
        ∃ n, CellAt r.unit.toProjectionDefinition (metadata s) (st.logs s) n
          ⟨row.val, row.seq, (none, none)⟩ := by
      intro hlive row hlookup
      obtain ⟨d, hd, value, hok⟩ := restore_lookup hrestored hlookup
      obtain ⟨u, hu, rfl⟩ := List.mem_map.mp hd
      obtain ⟨hkey, n, hn, hrowOf⟩ := restoreUnit_row (h.contiguous s) (hrows u hu) hok
      have hunit := h.unit_eq hr hlive hu hkey.symm
      subst hunit
      refine ⟨n, hn, ?_, ?_, by simp⟩
      · simp [hrowOf, ProjectionDefinition.rowOf, cursorBefore, hn]
      · rw [hrowOf]
        rfl
    unfold installRow
    split
    · next hlive =>
        split
        · exact .refl r
        · next row cell hlookup hcell =>
            obtain ⟨n, hn⟩ := hrow hlive row hlookup
            split
            · exact .refl r
            · next hge =>
                refine .setCell hn ?_
                intro cell' hcell'
                rw [hcell] at hcell'
                cases hcell'
                dsimp only
                omega
        · next row hlookup hcell =>
            obtain ⟨n, hn⟩ := hrow hlive row hlookup
            refine .setCell hn ?_
            intro cell' hcell'
            rw [hcell] at hcell'
            cases hcell'
    · exact .refl r

/-! ## Walks -/

theorem forall₂_set {α : Type} {R : α → α → Prop} (hrefl : ∀ x, R x x) {xs : List α} {i : ℕ}
    {x y : α} (hx : xs[i]? = some x) (hxy : R x y) : List.Forall₂ R xs (xs.set i y) := by
  induction xs generalizing i with
  | nil => cases hx
  | cons z xs ih =>
    cases i with
    | zero =>
      cases hx
      exact .cons hxy (List.forall₂_same.mpr fun x _ => hrefl x)
    | succ i => exact .cons (hrefl z) (ih hx)

theorem cellBefore_spec {d : ProjectionDefinition} {log : List SessionEvent} (h : Contiguous log)
    (hevent : event.seq ≤ log.length) {cell? : Option UnitCell}
    (hcell : ∀ cell, cell? = some cell → ∃ n ≤ event.seq, CellAt d session log n cell)
    (same : Identity) :
    ∃ cell, cellBefore d same session log event cell? = .ok cell ∧
      CellAt d session log event.seq cell ∧
      ∀ cell₀, cell? = some cell₀ → cell₀.observedSeq + 1 = event.seq → cell = cell₀ := by
  cases cell? with
  | none => exact ⟨_, rfl, buildCell_take h hevent, nofun⟩
  | some cell₀ =>
    obtain ⟨n, hn, hat⟩ := hcell cell₀ rfl
    obtain ⟨cell, hrun, hspec, hstays⟩ := advanceCell_spec h hat hevent same
    have hmax : max n event.seq = event.seq := by omega
    rw [hmax] at hspec
    refine ⟨cell, hrun, hspec, ?_⟩
    intro cell₁ heq hseq
    cases heq
    have hobserved := hat.observedSeq
    exact hstays (by omega)

theorem driveUnit_spec (h : st.Inv metadata) (hevent : (st.logs s)[event.seq]? = some event)
    (slot : ℕ) (hr : r ∈ st.registrations)
    (hunseen : ∀ cell, r.cells s = some cell → cell.observedSeq < (event.seq : ℤ)) (same : Identity)
    (sameView : Bool) :
    ∃ after value, st.driveUnit metadata same sameView s event slot r
        = .ok ⟨st.logs, st.registrations.set slot (r.setCell s after), st.walks, st.observers,
            match value with
            | some value => notify s r.unit.key value st.consumers
            | none => st.consumers⟩ ∧
      CellAt r.unit.toProjectionDefinition (metadata s) (st.logs s) (event.seq + 1) after ∧
      (0 < st.listenerCount → ∀ cell served, r.cells s = some cell →
        cell.observedSeq + 1 = event.seq → r.unit.served cell.state = .ok served →
        r.unit.served after.state = .ok (value.or served)) := by
  have ⟨hlt, _⟩ := List.getElem?_eq_some_iff.mp hevent
  have hcell : ∀ cell, r.cells s = some cell →
      ∃ n ≤ event.seq, CellAt r.unit.toProjectionDefinition (metadata s) (st.logs s) n cell := by
    intro cell hcell
    obtain ⟨n, hn⟩ := h.cells r hr s cell hcell
    have hobserved := hn.observedSeq
    have hlow := hunseen cell hcell
    exact ⟨n, by omega, hn⟩
  obtain ⟨cell, hbefore, hat, hstays⟩ :=
    cellBefore_spec (h.contiguous s) (Nat.le_of_lt hlt) hcell same
  obtain ⟨after, value, hdrive, hafter, hserved⟩ := driveCell_spec hat hevent rfl
    (same r.unit.key event.seq) sameView (decide (0 < st.listenerCount))
  refine ⟨after, value, ?_, hafter, ?_⟩
  · simp only [driveUnit, hbefore, ok_bind, hdrive]
    rfl
  · intro hlistening cell₀ served hcell₀ hseq hbeforeServed
    have heq := hstays cell₀ hcell₀ hseq
    rw [← heq] at hbeforeServed
    exact hserved (by simpa using hlistening) served hbeforeServed

theorem drive_inv (h : st.Inv metadata) {same : Identity} {sameView : Bool}
    (hstep : st.drive metadata same sameView = .ok st') : st'.Inv metadata ∧ st.Advances st' := by
  unfold drive at hstep
  split at hstep
  · cases hstep
    exact ⟨h, .refl st⟩
  · next walk walks hwalks =>
      have hdistinct := h.distinct
      rw [hwalks] at hdistinct
      have hnext : ∀ w ∈ (⟨walk.session, walk.event, walk.cursor + 1⟩ : Walk σ) :: walks,
          ∃ w₀ ∈ st.walks, w.session = w₀.session ∧ w.event = w₀.event := by
        rw [hwalks]
        intro w hw
        rcases List.mem_cons.mp hw with rfl | hw
        · exact ⟨walk, by simp, rfl, rfl⟩
        · exact ⟨w, List.mem_cons_of_mem _ hw, rfl, rfl⟩
      have hsame : List.Forall₂ (Registration.Updates metadata st.logs walk.session)
          st.registrations st.registrations := List.forall₂_same.mpr fun r _ => .refl r
      dsimp only at hstep
      split at hstep
      · cases hstep
        refine h.updates hsame ?_ (List.nodup_cons.mp hdistinct).2
        exact fun w hw => ⟨w, by rw [hwalks]; exact List.mem_cons_of_mem _ hw, rfl, rfl⟩
      · next r hr =>
          split at hstep
          · next hdriven =>
              obtain ⟨hlast, hevent⟩ := h.walks walk (by rw [hwalks]; simp)
              have hunseen : ∀ cell, r.cells walk.session = some cell →
                  cell.observedSeq < (walk.event.seq : ℤ) := by
                intro cell hcell
                simp only [Registration.hasSeen, hcell, Bool.and_eq_true, Bool.not_eq_true',
                  decide_eq_false_iff_not] at hdriven
                omega
              have hinv : Inv metadata ⟨st.logs, st.registrations,
                  ⟨walk.session, walk.event, walk.cursor + 1⟩ :: walks, st.observers, st.consumers⟩ :=
                (h.updates hsame hnext (by simpa using hdistinct)).1
              obtain ⟨after, value, hunit, hafter, _⟩ := driveUnit_spec hinv hevent walk.cursor
                (List.mem_of_getElem? hr) hunseen same sameView
              rw [hunit] at hstep
              cases hstep
              refine h.updates (forall₂_set .refl hr (.setCell hafter ?_)) hnext
                (by simpa using hdistinct)
              intro cell hcell
              have hlow := hunseen cell hcell
              rw [hafter.observedSeq]
              omega
          · cases hstep
            exact h.updates hsame hnext (by simpa using hdistinct)

/-! ## Every call -/

/-- A hydration is given rows of the session's own log. -/
def Own (metadata : σ → SessionMetadata) (st : Registry σ) : Call σ → Prop
  | .hydrate s rows _ _ => RowsOver st.units (metadata s) (st.logs s) rows
  | _ => True

theorem toOption_eq_some {ε α : Type} {x : Except ε α} {a : α} (h : x.toOption = some a) :
    x = .ok a := by
  cases x with
  | error e => cases h
  | ok b =>
    cases h
    rfl

theorem map_toOption {ε α β : Type} {x : Except ε α} {f : α → β} {b : β}
    (h : (x.map f).toOption = some b) : ∃ a, x = .ok a ∧ f a = b := by
  cases x with
  | error e => cases h
  | ok a =>
    cases h
    exact ⟨a, rfl, rfl⟩

theorem step_inv {call : Call σ} (h : st.Inv metadata) (hown : st.Own metadata call)
    (hstep : st.step metadata call = some st') : st'.Inv metadata ∧ st.Advances st' := by
  have hlisteners : ∀ (observers : ℕ) (consumers : List (Consumer σ)),
      Inv metadata ⟨st.logs, st.registrations, st.walks, observers, consumers⟩ ∧
        st.Advances ⟨st.logs, st.registrations, st.walks, observers, consumers⟩ :=
    fun _ _ => ⟨⟨h.contiguous, h.cells, h.walks, h.distinct, h.keys⟩,
      ⟨fun _ => List.prefix_refl _, (Advances.refl st).slots⟩⟩
  cases call with
  | created s =>
    cases hstep
    exact created_inv h s
  | append s event => exact append_inv h (toOption_eq_some hstep)
  | drive same sameView => exact drive_inv h (toOption_eq_some hstep)
  | stateOf same s key =>
    obtain ⟨out, hout, rfl⟩ := map_toOption hstep
    unfold stateOf at hout
    split at hout
    · cases hout
      exact ⟨h, .refl st⟩
    · obtain ⟨st₁, hst₁, hout⟩ := bind_ok hout
      cases hout
      exact h.materialized hst₁
  | snapshot same s =>
    obtain ⟨⟨fresh, st₁⟩, hout, rfl⟩ := map_toOption hstep
    exact h.materialized (snapshot_ok hout).1
  | checkpoint same s =>
    obtain ⟨out, hout, rfl⟩ := map_toOption hstep
    obtain ⟨st₁, hst₁, hout⟩ := bind_ok hout
    cases hout
    exact h.materialized hst₁
  | hydrate s rows count base =>
    obtain ⟨out, hout, rfl⟩ := map_toOption hstep
    obtain ⟨registrations, heq, hupdates⟩ := hydrate_inv h hown hout
    rw [heq]
    exact h.updates hupdates (fun w hw => ⟨w, hw, rfl, rfl⟩) h.distinct
  | register unit => exact register_inv h (toOption_eq_some hstep)
  | release key =>
    cases hstep
    exact release_inv h key
  | listen =>
    cases hstep
    exact hlisteners _ _
  | unlisten =>
    cases hstep
    exact hlisteners _ _
  | subscribe same s =>
    obtain ⟨⟨fresh, st₁⟩, hout, hstep⟩ := bind_ok (toOption_eq_some hstep)
    cases hstep
    have ⟨hinv, hadvances⟩ := h.materialized (snapshot_ok hout).1
    exact ⟨⟨hinv.contiguous, hinv.cells, hinv.walks, hinv.distinct, hinv.keys⟩,
      ⟨hadvances.logs, hadvances.slots⟩⟩
  | unsubscribe index =>
    cases hstep
    exact hlisteners _ _

end Registry

end

end Projection

end TianmaCoder
