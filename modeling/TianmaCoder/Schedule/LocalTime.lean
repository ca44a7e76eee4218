import TianmaCoder.Lib.Grid
import TianmaCoder.Schedule.Writers

/-!
# Local wall-clock times

A local time is resolved from the offsets that its zone has at five instants around it. No offset
of the zone holds for less than a day, so one of the five has the offset of any instant with these
local fields.

## Main definitions

* `localFields` — the fields a wall clock shows at an instant.
* `Zone` — what the runtime reports about a zone.

## Main results

* `resolveLocalInstant_isLeast` — the earliest instant with the local fields, or an error.
-/

namespace TianmaCoder

namespace Schedule

open Checked

/-- The fields that a wall clock with the given offsets shows at an instant. -/
def localFields (offset : ℤ → ℤ) (t : ℤ) : Instant.Parts := Instant.parts (t + offset t)

/-- A zone that the runtime reports: offsets below a day, none for less than a day. -/
structure Zone (zones : TimeZones) (timeZone : String) (offset : ℤ → ℤ) : Prop where
  reports : ∀ t, Instant.minFourDigitYear ≤ t → t ≤ Instant.maxFourDigitYear →
    zones.projection timeZone t = .ok (localFields offset t, offset t)
  bounded : ∀ t, |offset t| < Instant.msPerDay
  stretches : Grid.LongStretches offset Instant.msPerDay

/-- The instant nearest to `t` with a four-digit year. -/
def clamped (t : ℤ) : ℤ := min Instant.maxFourDigitYear (max Instant.minFourDigitYear t)

theorem min_le_clamped (t : ℤ) : Instant.minFourDigitYear ≤ clamped t := by
  have hbounds : Instant.minFourDigitYear ≤ Instant.maxFourDigitYear := by decide +kernel
  unfold clamped
  omega

theorem clamped_le_max (t : ℤ) : clamped t ≤ Instant.maxFourDigitYear := by
  unfold clamped
  omega

variable {zones : TimeZones} {timeZone : String} {offset : ℤ → ℤ}

/-- The sampled offsets are those of the clamped samples. -/
theorem sampledOffsets_ok (h : Zone zones timeZone offset) (localEpoch : ℤ) :
    ∃ offsets, sampledOffsets zones timeZone localEpoch = .ok offsets ∧
      ∀ o, o ∈ offsets ↔ ∃ delta ∈ [-172800000, -86400000, 0, 86400000, 172800000],
        offset (clamped (localEpoch + delta)) = o := by
  have hloop : ∀ (deltas : List ℤ) (seen : List ℤ), ∃ offsets,
      deltas.foldlM (fun offsets delta => do
        let sample := min Instant.maxFourDigitYear
          (max Instant.minFourDigitYear (localEpoch + delta))
        let projected ← zones.projection timeZone sample
        pure (if projected.2 ∈ offsets then offsets else offsets ++ [projected.2])) seen
          = .ok offsets ∧
      ∀ o, o ∈ offsets ↔ o ∈ seen ∨ ∃ delta ∈ deltas, offset (clamped (localEpoch + delta)) = o := by
    intro deltas
    induction deltas with
    | nil => exact fun seen => ⟨seen, rfl, fun o => by simp⟩
    | cons delta deltas ih =>
      intro seen
      have hreport := h.reports _ (min_le_clamped (localEpoch + delta)) (clamped_le_max _)
      unfold clamped at hreport
      obtain ⟨offsets, hrun, hmem⟩ := ih
        (if offset (clamped (localEpoch + delta)) ∈ seen then seen
          else seen ++ [offset (clamped (localEpoch + delta))])
      refine ⟨offsets, ?_, ?_⟩
      · simp only [List.foldlM_cons, hreport, pure_eq, ok_bind]
        exact hrun
      · intro o
        rw [hmem]
        by_cases hseen : offset (clamped (localEpoch + delta)) ∈ seen
        · rw [if_pos hseen]
          constructor
          · rintro (ho | ⟨d, hd, ho⟩)
            · exact Or.inl ho
            · exact Or.inr ⟨d, List.mem_cons_of_mem _ hd, ho⟩
          · rintro (ho | ⟨d, hd, ho⟩)
            · exact Or.inl ho
            · rcases List.mem_cons.mp hd with rfl | hd
              · exact Or.inl (ho ▸ hseen)
              · exact Or.inr ⟨d, hd, ho⟩
        · rw [if_neg hseen]
          simp only [List.mem_append, List.mem_cons, exists_eq_or_imp]
          tauto
  obtain ⟨offsets, hrun, hmem⟩ := hloop [-172800000, -86400000, 0, 86400000, 172800000] []
  refine ⟨offsets, hrun, fun o => ?_⟩
  rw [hmem]
  simp only [List.not_mem_nil, false_or]

theorem Zone.sampled (h : Zone zones timeZone offset) {t localEpoch : ℤ}
    (ht : t + offset t = localEpoch) (hmin : Instant.minFourDigitYear ≤ t)
    (hmax : t ≤ Instant.maxFourDigitYear) :
    ∃ delta ∈ [-172800000, -86400000, 0, 86400000, 172800000],
      offset (clamped (localEpoch + delta)) = offset t := by
  have hbounded := abs_lt.mp (h.bounded t)
  -- a sample on one side of the instant, and its clamped value, lie in the stretch of the instant
  have hside : ∀ delta ∈ [-86400000, 0, 86400000],
      (∀ s, min t (localEpoch + delta) ≤ s → s ≤ max t (localEpoch + delta) →
        offset s = offset t) →
      ∃ delta ∈ [-172800000, -86400000, 0, 86400000, 172800000],
        offset (clamped (localEpoch + delta)) = offset t := by
    intro delta hdelta hsame
    refine ⟨delta, by simp only [List.mem_cons, List.not_mem_nil, or_false] at hdelta ⊢; tauto, ?_⟩
    exact hsame _ (by unfold clamped; omega) (by unfold clamped; omega)
  have hday : Instant.msPerDay = 86400000 := rfl
  by_cases hbefore : t < localEpoch
  · rcases h.stretches.sampled (localEpoch - Instant.msPerDay) t with hlow | hhigh
    · refine hside (-86400000) (by simp) fun s hs hs' => hlow s ?_ ?_
      all_goals omega
    · refine hside 0 (by simp) fun s hs hs' => hhigh s ?_ ?_
      all_goals omega
  · rcases h.stretches.sampled localEpoch t with hlow | hhigh
    · refine hside 0 (by simp) fun s hs hs' => hlow s ?_ ?_
      all_goals omega
    · refine hside 86400000 (by simp) fun s hs hs' => hhigh s ?_ ?_
      all_goals omega

/-! ## Resolving -/

theorem localFields_eq_iff {p : Instant.Parts} (hreal : Instant.parts (Instant.epoch p) = p)
    (t : ℤ) : localFields offset t = p ↔ t + offset t = Instant.epoch p := by
  constructor
  · intro hfields
    rw [← hfields, localFields, Instant.epoch_parts]
  · intro hepoch
    rw [localFields, hepoch, hreal]

theorem real_of_localFields {p : Instant.Parts} {t : ℤ} (h : localFields offset t = p) :
    Instant.parts (Instant.epoch p) = p := by
  rw [← h, localFields, Instant.epoch_parts]

theorem resolveLocalInstant_candidates (hzone : Zone zones timeZone offset) {p : Instant.Parts}
    (hreal : Instant.parts (Instant.epoch p) = p) (hrange : ∀ t, localFields offset t = p →
      Instant.minFourDigitYear ≤ t ∧ t ≤ Instant.maxFourDigitYear) :
    ∃ candidates : List ℤ, (∀ t, t ∈ candidates ↔ localFields offset t = p) ∧
      ∃ error, resolveLocalInstant zones p timeZone
        = match candidates.min? with
          | some first => .ok first
          | none => .error error := by
  obtain ⟨offsets, hoffsets, hmem⟩ := sampledOffsets_ok hzone (Instant.epoch p)
  have hlocal : calendarEpoch p = .ok (Instant.epoch p) := by
    rw [calendarEpoch, if_neg (not_not.mpr hreal)]
    rfl
  let inRange := fun candidate : ℤ => decide
    (Instant.minFourDigitYear ≤ candidate ∧ candidate ≤ Instant.maxFourDigitYear)
  let all := (offsets.map fun offset => Instant.epoch p - offset).filter inRange
  have hfilter : (all.filterMapM fun candidate => do
        let projected ← zones.projection timeZone candidate
        pure (if projected.1 = p then some candidate else none))
      = .ok (all.filterMap fun candidate =>
          if localFields offset candidate = p then some candidate else none) := by
    refine filterMapM_ok _ ?_
    intro candidate hcandidate
    have hin := of_decide_eq_true (List.mem_filter.mp hcandidate).2
    rw [hzone.reports candidate hin.1 hin.2]
    rfl
  refine ⟨all.filterMap fun candidate => if localFields offset candidate = p then some candidate
    else none, ?_, ?_⟩
  · intro t
    simp only [List.mem_filterMap, Option.ite_none_right_eq_some, Option.some.injEq]
    constructor
    · rintro ⟨candidate, -, hfields, rfl⟩
      exact hfields
    · intro hfields
      obtain ⟨hmin, hmax⟩ := hrange t hfields
      have hepoch := (localFields_eq_iff hreal t).mp hfields
      have hsampled := (hmem (offset t)).mpr (hzone.sampled hepoch hmin hmax)
      refine ⟨t, List.mem_filter.mpr ⟨List.mem_map.mpr ⟨offset t, hsampled, by omega⟩, ?_⟩,
        hfields, rfl⟩
      exact decide_eq_true ⟨hmin, hmax⟩
  · simp only [resolveLocalInstant, hlocal, hoffsets, ok_bind]
    rw [hfilter, ok_bind]
    generalize List.filterMap _ all = candidates
    cases candidates.min? with
    | some first => exact ⟨timeOutOfRange, rfl⟩
    | none => exact ⟨_, rfl⟩

/-- A local time is resolved to the earliest instant with its fields, and refused exactly when
there is none. -/
theorem resolveLocalInstant_isLeast (hzone : Zone zones timeZone offset) (p : Instant.Parts)
    (hrange : ∀ t, localFields offset t = p →
      Instant.minFourDigitYear ≤ t ∧ t ≤ Instant.maxFourDigitYear) :
    (∀ t, resolveLocalInstant zones p timeZone = .ok t
      ↔ IsLeast {t | localFields offset t = p} t) ∧
    ((∃ error, resolveLocalInstant zones p timeZone = .error error)
      ↔ ∀ t, localFields offset t ≠ p) := by
  by_cases hreal : Instant.parts (Instant.epoch p) = p
  · obtain ⟨candidates, hmem, error, hresolve⟩ :=
      resolveLocalInstant_candidates hzone hreal hrange
    rw [hresolve]
    cases hmin : candidates.min? with
    | none =>
      rw [List.min?_eq_none_iff] at hmin
      have hnone : ∀ t, localFields offset t ≠ p := by
        intro t ht
        have ht' := (hmem t).mpr ht
        rw [hmin] at ht'
        cases ht'
      constructor
      · intro t
        constructor
        · intro h
          cases h
        · intro h
          exact absurd h.1 (hnone t)
      · exact ⟨fun _ => hnone, fun _ => ⟨error, rfl⟩⟩
    | some first =>
      rw [List.min?_eq_some_iff] at hmin
      have hleast : IsLeast {t | localFields offset t = p} first :=
        ⟨(hmem first).mp hmin.1, fun t ht => hmin.2 t ((hmem t).mpr ht)⟩
      constructor
      · intro t
        constructor
        · intro h
          cases h
          exact hleast
        · intro h
          rw [hleast.unique h]
      · constructor
        · rintro ⟨_, h⟩
          cases h
        · intro hnone
          exact absurd hleast.1 (hnone first)
  · have hnone : ∀ t, localFields offset t ≠ p := fun t ht => hreal (real_of_localFields ht)
    have herror : resolveLocalInstant zones p timeZone = .error invalidDate := by
      rw [resolveLocalInstant, calendarEpoch, if_pos hreal]
      rfl
    rw [herror]
    constructor
    · intro t
      constructor
      · intro h
        cases h
      · intro h
        exact absurd h.1 (hnone t)
    · exact ⟨fun _ => hnone, fun _ => ⟨_, rfl⟩⟩

/-- The offsets of a zone that ends its summer time once. -/
def endOfSummer (t : ℤ) : ℤ := if t < 1698541200000 then 7200000 else 3600000

/-- A runtime that knows only this zone. -/
def endOfSummerZones : TimeZones where
  canonical := some
  projection _ t := .ok (localFields endOfSummer t, endOfSummer t)

theorem zone_endOfSummer : Zone endOfSummerZones "Europe/Berlin" endOfSummer where
  reports _ _ _ := rfl
  bounded t := by
    unfold endOfSummer Instant.msPerDay
    rw [abs_lt]
    omega
  stretches t := by
    unfold endOfSummer Instant.msPerDay
    by_cases ht : t < 1698541200000
    · refine ⟨t - 86400000, 1698541200000, by omega, ht, by omega, ?_⟩
      intro s _ hs
      rw [if_pos hs, if_pos ht]
    · refine ⟨1698541200000, t + 86400000, by omega, by omega, by omega, ?_⟩
      intro s hs _
      rw [if_neg (by omega), if_neg ht]

/-- A time of the hour that the clocks show twice. -/
theorem resolveLocalInstant_isLeast_overlap :
    (∀ t, resolveLocalInstant endOfSummerZones ⟨2023, 10, 29, 2, 30, 0, 0⟩ "Europe/Berlin" = .ok t
      ↔ IsLeast {t | localFields endOfSummer t = ⟨2023, 10, 29, 2, 30, 0, 0⟩} t) ∧
    ((∃ error, resolveLocalInstant endOfSummerZones ⟨2023, 10, 29, 2, 30, 0, 0⟩ "Europe/Berlin"
        = .error error)
      ↔ ∀ t, localFields endOfSummer t ≠ ⟨2023, 10, 29, 2, 30, 0, 0⟩) := by
  refine resolveLocalInstant_isLeast zone_endOfSummer _ fun t ht => ?_
  have hepoch := (localFields_eq_iff (by decide +kernel) t).mp ht
  have hlocal : Instant.epoch ⟨2023, 10, 29, 2, 30, 0, 0⟩ = 1698546600000 := by decide +kernel
  rw [hlocal] at hepoch
  rw [Instant.minFourDigitYear_eq, Instant.maxFourDigitYear_eq]
  unfold endOfSummer at hepoch
  split at hepoch <;> omega

end Schedule

end TianmaCoder
