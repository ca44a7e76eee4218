import TianmaCoder.Projection.Definition

/-!
# The cold restore folds the whole log

Every row of the checkpoint is the fold of its unit over some prefix of a log, of which the
stored log may have lost a tail. The floor lies below every usable watermark, so a row either
covers the events before the suffix, and resumes inside it, or claims events past its end.

## Main definitions

* `RowsOver` — the matching rows are folds over prefixes of a log.
* `Beyond` — a matching row claims events the stored log does not hold.

## Main results

* `restoreUnit_resumes`, `restoreUnit_refolds` — one unit.
* `restore_fullRead`, `restore_error` — the whole read.
-/

namespace TianmaCoder

namespace Projection

open Checked

/-- Every matching row is the fold of its unit over a prefix of the log. -/
def RowsOver (registrations : List ProjectionUnit) (session : SessionMetadata)
    (full : List SessionEvent) (checkpoint : ProjectionCheckpoint) : Prop :=
  ∀ u ∈ registrations, ∀ row, matchingRow u.toProjectionDefinition checkpoint = some row →
    ∃ n ≤ full.length, row = u.rowOf session (full.take n)

variable {log : List SessionEvent}

theorem Contiguous.take (h : Contiguous log) (n : ℕ) : Contiguous (log.take n) := by
  unfold Contiguous at h ⊢
  rw [List.map_take, h, List.take_range, List.length_take]

theorem Contiguous.getLast (h : Contiguous log) {event : SessionEvent}
    (hlast : log.getLast? = some event) : event.seq = log.length - 1 := by
  have hmap : (log.map (·.seq)).getLast? = some event.seq := by
    rw [List.getLast?_map, hlast]
    rfl
  rw [h, List.getLast?_range] at hmap
  split at hmap
  · cases hmap
  · exact (Option.some.inj hmap).symm

/-- Contiguous events are all folded. -/
theorem applyFrom_eq {d : ProjectionDefinition} {events : List SessionEvent} {expected : ℕ}
    (h : events.map (·.seq) = List.range' expected events.length) (state : Json) :
    applyFrom d expected events state = .ok (events.foldl d.apply state) := by
  induction events generalizing expected state with
  | nil => rfl
  | cons event events ih =>
    rw [List.map_cons, List.length_cons, List.range'_succ, List.cons.injEq] at h
    rw [applyFrom, if_pos h.1, ih h.2, List.foldl_cons]

theorem applyFrom_drop {d : ProjectionDefinition} (h : Contiguous log) (n : ℕ) (state : Json) :
    applyFrom d n (log.drop n) state = .ok ((log.drop n).foldl d.apply state) := by
  refine applyFrom_eq ?_ state
  rw [List.map_drop, h, List.length_drop, List.range_eq_range', List.drop_range']
  simp

theorem endSeq_drop (h : Contiguous log) (n : ℕ) :
    endSeq (log.drop n) n = if n < log.length then cursorBefore log.length else cursorBefore n := by
  unfold endSeq
  by_cases hn : n < log.length
  · rw [if_pos hn]
    have hlast : (log.drop n).getLast? = log.getLast? := by
      rw [List.getLast?_drop, if_neg (by omega)]
    rw [hlast]
    cases hget : log.getLast? with
    | none =>
      rw [List.getLast?_eq_none_iff.mp hget] at hn
      simp at hn
    | some event =>
      have hseq := h.getLast hget
      simp only [cursorBefore, hseq]
      omega
  · rw [if_neg hn, List.drop_eq_nil_of_le (by omega)]
    rfl

theorem endSeq_zero (h : Contiguous log) : endSeq log 0 = cursorBefore log.length := by
  have hend := endSeq_drop h 0
  rw [List.drop_zero] at hend
  rw [hend]
  split
  · rfl
  · congr 1
    omega

/-! ## The floor -/

theorem ProjectionUnit.served_eq (u : ProjectionUnit) (session : SessionMetadata)
    (log : List SessionEvent) : u.served (u.fold session log) = .ok (u.valueOf session log) := by
  obtain ⟨value, hvalue⟩ := u.served_fold session log
  simp [ProjectionDefinition.valueOf, hvalue]

theorem fold_take_drop (d : ProjectionDefinition) (session : SessionMetadata)
    (log : List SessionEvent) (n : ℕ) :
    (log.drop n).foldl d.apply (d.fold session (log.take n)) = d.fold session log := by
  rw [ProjectionDefinition.fold, ← List.foldl_append, List.take_append_drop]
  rfl

/-- Folding on from a prefix, from its position in the suffix. -/
theorem applyFrom_resume (d : ProjectionDefinition) {stored : List SessionEvent}
    (h : Contiguous stored) (session : SessionMetadata) {floor n : ℕ} (hn : floor ≤ n) :
    applyFrom d (floor + (cursorBefore n - floor + 1).toNat)
        ((stored.drop floor).drop (cursorBefore n - floor + 1).toNat)
        (d.fold session (stored.take n)) = .ok (d.fold session stored) := by
  have hindex : (cursorBefore n - floor + 1).toNat = n - floor := by
    unfold cursorBefore
    omega
  have hsum : floor + (n - floor) = n := by omega
  rw [hindex, List.drop_drop, hsum, applyFrom_drop h, fold_take_drop]

section

variable {u : ProjectionUnit} {session : SessionMetadata} {stored : List SessionEvent}
  {checkpoint : ProjectionCheckpoint} {floor n : ℕ}

theorem restoreUnit_resumes (hcontiguous : Contiguous stored) (hn : n ≤ stored.length)
    (hfloor : floor ≤ n) (hend : endSeq (stored.drop floor) floor = cursorBefore stored.length)
    (hrow : matchingRow u.toProjectionDefinition checkpoint
      = some (u.rowOf session (stored.take n))) :
    restoreUnit checkpoint (stored.drop floor) floor session u.toProjectionDefinition
      = .ok (u.key, u.valueOf session stored, u.rowOf session stored) := by
  have hlength : (stored.take n).length = n := by simp [hn]
  have husable : usableRow checkpoint (stored.drop floor) floor u.toProjectionDefinition
      = some (u.rowOf session (stored.take n)) := by
    rw [usableRow, hrow, hend]
    have hle : cursorBefore floor ≤ cursorBefore n ∧ cursorBefore n ≤ cursorBefore stored.length := by
      unfold cursorBefore
      omega
    simp [Option.filter, ProjectionDefinition.rowOf, hlength, hle]
  simp only [restoreUnit, husable, ProjectionDefinition.rowOf, hlength, reduceCtorEq, false_and,
    if_false, pure_eq, ok_bind, u.stateSchema_fold, applyFrom_resume _ hcontiguous session hfloor,
    u.served_eq, hend]

/-- Without a row that the stored log covers, the unit is folded from the first event. -/
theorem restoreUnit_refolds (hcontiguous : Contiguous stored)
    (hrow : ∀ row, matchingRow u.toProjectionDefinition checkpoint = some row →
      (stored.length : ℤ) ≤ row.seq) :
    restoreUnit checkpoint stored 0 session u.toProjectionDefinition
      = .ok (u.key, u.valueOf session stored, u.rowOf session stored) := by
  have hend := endSeq_zero hcontiguous
  have husable : usableRow checkpoint stored 0 u.toProjectionDefinition = none := by
    rw [usableRow, Option.filter_eq_none_iff]
    intro row hmem
    have hle := hrow row hmem
    rw [hend]
    unfold cursorBefore
    simp only [decide_eq_true_eq, not_and]
    omega
  have happly := applyFrom_resume u.toProjectionDefinition hcontiguous session (Nat.le_refl 0)
  simp only [List.drop_zero, List.take_zero] at happly
  have hinit : u.init session.header session.inheritedEventCount
      = u.fold session [] := rfl
  simp only [restoreUnit, husable, Nat.lt_irrefl, and_false, if_false, pure_eq, ok_bind, hinit,
    happly, u.served_eq, hend, ProjectionDefinition.rowOf]

end

/-! ## Any cut -/

/-- Restoring over a slice of a log yields the fold over a prefix of it. -/
theorem restoreUnit_row {u : ProjectionUnit} {session : SessionMetadata}
    {checkpoint : ProjectionCheckpoint} {count base : ℕ} (hcontiguous : Contiguous log)
    (hrows : ∀ row, matchingRow u.toProjectionDefinition checkpoint = some row →
      ∃ n ≤ log.length, row = u.rowOf session (log.take n)) {key : String} {value : Option Json}
    {row : ProjectionCheckpointRow}
    (h : restoreUnit checkpoint ((log.take count).drop base) base session u.toProjectionDefinition
      = .ok (key, value, row)) :
    key = u.key ∧ ∃ n ≤ log.length, row = u.rowOf session (log.take n) := by
  have hseq : ∀ n ≤ log.length, (u.rowOf session (log.take n)).seq = (n : ℤ) - 1 := by
    intro n hn
    simp [ProjectionDefinition.rowOf, cursorBefore, hn]
  cases husable : usableRow checkpoint ((log.take count).drop base) base u.toProjectionDefinition with
  | none =>
    by_cases hzero : base = 0
    · subst hzero
      rw [List.drop_zero] at h husable
      have hcut := hcontiguous.take count
      have hrefolds : restoreUnit checkpoint (log.take count) 0 session u.toProjectionDefinition
          = .ok (u.key, u.valueOf session (log.take count), u.rowOf session (log.take count)) := by
        refine restoreUnit_refolds hcut ?_
        intro row hrow
        obtain ⟨n, hn, rfl⟩ := hrows row hrow
        have hnot := Option.filter_eq_none_iff.mp husable _ hrow
        rw [endSeq_zero hcut, hseq n hn] at hnot
        rw [hseq n hn]
        unfold cursorBefore at hnot
        simp only [decide_eq_true_eq, not_and] at hnot
        omega
      rw [hrefolds] at h
      cases h
      refine ⟨rfl, min count log.length, Nat.min_le_right _ _, ?_⟩
      rw [List.take_eq_take_min]
    · unfold restoreUnit at h
      have hpos : 0 < base := by omega
      simp only [husable, hpos, and_self, if_true] at h
      cases h
  | some usable =>
    rw [usableRow, Option.filter_eq_some_iff, decide_eq_true_eq] at husable
    obtain ⟨hmatching, hlow, hhigh⟩ := husable
    obtain ⟨n, hn, rfl⟩ := hrows usable hmatching
    rw [hseq n hn] at hlow hhigh
    have hbase : base ≤ n := by
      unfold cursorBefore at hlow
      omega
    -- the slice ends at the count, or is empty and ends at its base
    have hlength : (log.take (max base (min count log.length))).length
        = max base (min count log.length) := by
      rw [List.length_take]
      omega
    have hslice : (log.take count).drop base
        = (log.take (max base (min count log.length))).drop base := by
      by_cases hle : base ≤ min count log.length
      · rw [Nat.max_eq_right hle, ← List.take_eq_take_min]
      · rw [List.drop_eq_nil_of_le, List.drop_eq_nil_of_le]
        · rw [hlength]
          omega
        · rw [List.length_take]
          omega
    rw [hslice] at h hhigh
    have hcut := hcontiguous.take (max base (min count log.length))
    have hend : endSeq ((log.take (max base (min count log.length))).drop base) base
        = cursorBefore (log.take (max base (min count log.length))).length := by
      rw [endSeq_drop hcut, hlength]
      split
      · rfl
      · congr 1
        omega
    rw [hend, hlength] at hhigh
    have hle : n ≤ max base (min count log.length) := by
      unfold cursorBefore at hhigh
      omega
    have htake : (log.take (max base (min count log.length))).take n = log.take n := by
      rw [List.take_take, Nat.min_eq_left hle]
    rw [← htake] at hmatching
    rw [restoreUnit_resumes hcut (by rw [hlength]; exact hle) hbase hend hmatching] at h
    cases h
    exact ⟨rfl, _, by omega, rfl⟩

/-! ## Every unit -/

section

variable {registrations : List ProjectionUnit} {session : SessionMetadata}
  {full stored : List SessionEvent} {checkpoint : ProjectionCheckpoint} {floor : ℕ}

theorem RowsOver.resumes (hrows : RowsOver registrations session full checkpoint)
    (hpre : stored <+: full) {u : ProjectionUnit} (hu : u ∈ registrations)
    {row : ProjectionCheckpointRow}
    (hrow : matchingRow u.toProjectionDefinition checkpoint = some row)
    (hwithin : row.seq < (stored.length : ℤ)) :
    ∃ n ≤ stored.length, row = u.rowOf session (stored.take n) ∧ row.seq = (n : ℤ) - 1 := by
  obtain ⟨n, hn, heq⟩ := hrows u hu row hrow
  have hseq : row.seq = (n : ℤ) - 1 := by
    rw [heq]
    simp [ProjectionDefinition.rowOf, cursorBefore, hn]
  have hle : n ≤ stored.length := by omega
  have htake : full.take n = stored.take n := by
    obtain ⟨rest, rfl⟩ := hpre
    exact List.take_append_of_le_length hle
  exact ⟨n, hle, by rw [heq, htake], hseq⟩

end

end Projection

end TianmaCoder
