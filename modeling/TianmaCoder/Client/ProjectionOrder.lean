import TianmaCoder.Client.ProjectionStore

/-!
# The order in which projection writes arrive

The newest word about a key should decide its value, in whatever order the writes of a generation
arrive. Absence is a deleted row that keeps no position, so a store forgets how new an absence is:
an older value, or a cached block, that arrives while the newest word is an absence comes back to
life. That is the only way in which the order shows.

## Main definitions

* `ArrivalsSettled` — what should hold of the writes in an order of arrival.
* `Resurrects` — an older value arrives after an absence.

## Main results

* `arrivalsSettled_iff` — the orders in which everything holds.
-/

namespace TianmaCoder

open ProjectionValueStore

variable {V : Type*}

/-- The words about a key, in order of arrival. -/
def wordsAbout (arrivals : List (Arrival V)) (key : String) : List (ℤ × Option V) :=
  arrivals.filterMap (Arrival.word key)

/-- Writes of a key at one position agree, absence included. -/
def WritesAgree (arrivals : List (Arrival V)) : Prop :=
  ∀ key, StampsAgree (wordsAbout arrivals key)

/-- After all writes each key has the value of its newest word, absence included; a cached value is
shown only for a key without a word; and no prefix shows a value older than a word that has
arrived. -/
structure ArrivalsSettled (arrivals : List (Arrival V)) : Prop where
  final : ∀ key, ∀ word ∈ wordsAbout arrivals key,
    (∀ other ∈ wordsAbout arrivals key, other.1 ≤ word.1) →
      (receiveAll arrivals).get key = word.2
  cached : ∀ before, before <+: arrivals → ∀ key value,
    (receiveAll before).row key = some (.cached value) → wordsAbout before key = []
  forward : ∀ before, before <+: arrivals → ∀ key value seq,
    (receiveAll before).row key = some (.sequenced value seq) →
      ∀ word ∈ wordsAbout before key, word.1 ≤ seq

/-- The newest word about a key is an absence, and the next arrival carries a value for the key:
a cached one, or one of an older position. -/
def Resurrects (before : List (Arrival V)) (arrival : Arrival V) (key : String) : Prop :=
  ∃ seq, newest (wordsAbout before key) = some (seq, none) ∧
    match arrival.word key with
    | some (older, some _) => older < seq
    | some (_, none) => False
    | none => (arrival.cachedValue key).isSome

theorem wordsAbout_snoc (arrivals : List (Arrival V)) (arrival : Arrival V) (key : String) :
    wordsAbout (arrivals ++ [arrival]) key =
      wordsAbout arrivals key ++ (arrival.word key).toList := by
  unfold wordsAbout
  rw [List.filterMap_append]
  cases hword : arrival.word key <;> simp [hword]

variable {arrivals before : List (Arrival V)} {key : String}

theorem wordsAbout_mono (h : before <+: arrivals) {word : ℤ × Option V}
    (hword : word ∈ wordsAbout before key) : word ∈ wordsAbout arrivals key := by
  obtain ⟨after, rfl⟩ := h
  unfold wordsAbout
  rw [List.filterMap_append]
  exact List.mem_append_left _ hword

theorem WritesAgree.of_isPrefix (hagree : WritesAgree arrivals) (h : before <+: arrivals) :
    WritesAgree before := fun key u hu w hw =>
  hagree key u (wordsAbout_mono h hu) w (wordsAbout_mono h hw)

/-! ## Rows and words -/

/-- A sequenced row holds a word that has arrived. -/
theorem row_word (arrivals : List (Arrival V)) {value : V} {seq : ℤ}
    (h : (receiveAll arrivals).row key = some (.sequenced value seq)) :
    (seq, some value) ∈ wordsAbout arrivals key := by
  induction arrivals using List.reverseRecOn generalizing value seq with
  | nil => cases h
  | append_singleton arrivals arrival ih =>
    rw [receiveAll_snoc, row_receive] at h
    rw [wordsAbout_snoc, List.mem_append]
    split at h
    · next newSeq newValue hword =>
        unfold ProjectionRow.merge at h
        split at h
        · next kept keptSeq hrow =>
            by_cases hle : newSeq ≤ keptSeq
            · rw [if_pos hle] at h
              exact .inl (ih (hrow.trans h))
            · rw [if_neg hle] at h
              cases h
              exact .inr (by simp [hword])
        · cases h
          exact .inr (by simp [hword])
    · exact .inl (ih (Option.filter_eq_some_iff.mp h).1)
    · split at h
      · unfold ProjectionRow.fill at h
        split at h
        · next kept keptSeq hrow => exact .inl (ih (hrow.trans h))
        · cases h
      · exact .inl (ih h)

/-- The row of a key as its newest word has it: without a word it is not sequenced. -/
def RowTracks (arrivals : List (Arrival V)) (key : String) : Prop :=
  match newest (wordsAbout arrivals key) with
  | none => ∀ value seq, (receiveAll arrivals).row key ≠ some (.sequenced value seq)
  | some (seq, some value) => (receiveAll arrivals).row key = some (.sequenced value seq)
  | some (_, none) => (receiveAll arrivals).row key = none

/-- One arrival that resurrects nothing keeps the row with the newest word. -/
theorem RowTracks.snoc {arrival : Arrival V} (hagree : WritesAgree (arrivals ++ [arrival]))
    (h : RowTracks arrivals key) (hnot : ¬ Resurrects arrivals arrival key) :
    RowTracks (arrivals ++ [arrival]) key := by
  have hstamps := hagree key
  rw [wordsAbout_snoc] at hstamps
  unfold RowTracks at h ⊢
  unfold Resurrects at hnot
  rw [wordsAbout_snoc, receiveAll_snoc, row_receive]
  cases hword : arrival.word key with
  | none =>
    simp only [hword, Option.toList_none, List.append_nil] at hnot ⊢
    cases hnewest : newest (wordsAbout arrivals key) with
    | none =>
      simp only [hnewest] at h ⊢
      cases hvalue : arrival.cachedValue key with
      | none => exact h
      | some cached =>
        intro value seq hrow
        dsimp only at hrow
        unfold ProjectionRow.fill at hrow
        split at hrow
        · next kept keptSeq hkept => exact h kept keptSeq hkept
        · cases hrow
    | some last =>
      obtain ⟨seq, content⟩ := last
      cases content with
      | none =>
        cases hvalue : arrival.cachedValue key with
        | none =>
          simp only [hnewest] at h ⊢
          exact h
        | some cached => exact absurd ⟨seq, hnewest, by simp [hvalue]⟩ hnot
      | some value =>
        simp only [hnewest] at h ⊢
        cases arrival.cachedValue key with
        | none => exact h
        | some cached => simp [h, ProjectionRow.fill]
  | some word =>
    obtain ⟨seq, content⟩ := word
    simp only [hword, Option.toList_some] at hnot hstamps ⊢
    rw [newest_snoc]
    cases hnewest : newest (wordsAbout arrivals key) with
    | none =>
      simp only [hnewest, newer] at h ⊢
      cases content with
      | some value =>
        dsimp only
        unfold ProjectionRow.merge
        split
        · next kept keptSeq hrow => exact absurd hrow (h kept keptSeq)
        · rfl
      | none =>
        cases hrow : (receiveAll arrivals).row key with
        | none => rfl
        | some r =>
          cases r with
          | cached kept => rfl
          | sequenced kept keptSeq => exact absurd hrow (h kept keptSeq)
    | some last =>
      obtain ⟨lastSeq, lastContent⟩ := last
      have hlast := (newest_spec hnewest).1
      by_cases hlt : lastSeq < seq
      · -- the arrival is newer than every word before it
        simp only [hnewest, newer, hlt, if_true] at h ⊢
        cases content with
        | some value =>
          cases lastContent with
          | some kept =>
            simp only at h ⊢
            simp [h, ProjectionRow.merge, not_le.mpr hlt]
          | none =>
            simp only at h ⊢
            simp [h, ProjectionRow.merge]
        | none =>
          cases lastContent with
          | some kept =>
            simp only at h ⊢
            simp [h, Option.filter, ProjectionRow.isPast, not_lt.mpr hlt.le]
          | none =>
            simp only at h ⊢
            simp [h]
      · simp only [hnewest, newer, hlt, if_false] at h ⊢
        have hle : seq ≤ lastSeq := not_lt.mp hlt
        cases lastContent with
        | some kept =>
          simp only at h ⊢
          cases content with
          | some value => simp [h, ProjectionRow.merge, hle]
          | none =>
            -- an absence at the position of a value would disagree with it
            have hne : seq ≠ lastSeq := by
              intro heq
              have hsame := hstamps (seq, none) (by simp) (lastSeq, some kept)
                (List.mem_append_left _ hlast) heq
              cases hsame
            have hpast : seq < lastSeq := lt_of_le_of_ne hle hne
            simp [h, Option.filter, ProjectionRow.isPast, hpast]
        | none =>
          simp only at h ⊢
          cases content with
          | none => simp [h]
          | some value =>
            exfalso
            have hne : seq ≠ lastSeq := by
              intro heq
              have hsame := hstamps (seq, some value) (by simp) (lastSeq, none)
                (List.mem_append_left _ hlast) heq
              cases hsame
            exact hnot ⟨lastSeq, hnewest, lt_of_le_of_ne hle hne⟩

/-- Where nothing is resurrected, every row is as its newest word has it. -/
theorem rowTracks (hagree : WritesAgree arrivals)
    (h : ∀ before arrival, before ++ [arrival] <+: arrivals → ∀ key,
      ¬ Resurrects before arrival key) (key : String) : RowTracks arrivals key := by
  induction arrivals using List.reverseRecOn with
  | nil =>
    intro value seq hrow
    cases hrow
  | append_singleton arrivals arrival ih =>
    have hpre : arrivals <+: arrivals ++ [arrival] := List.prefix_append _ _
    have hbefore : RowTracks arrivals key := by
      refine ih (hagree.of_isPrefix hpre) ?_
      intro before next hnext
      exact h before next (hnext.trans hpre)
    exact hbefore.snoc hagree (h arrivals arrival (List.prefix_refl _) key)

/-! ## The orders of arrival -/

/-- A resurrected value shows: the row is not what the words before it allow. -/
theorem not_resurrects {arrival : Arrival V} (hagree : WritesAgree arrivals)
    (hsettled : ArrivalsSettled arrivals) (h : before ++ [arrival] <+: arrivals) :
    ¬ Resurrects before arrival key := by
  rintro ⟨seq, hnewest, hcarries⟩
  have hbefore : before <+: arrivals := (List.prefix_append _ _).trans h
  obtain ⟨hmem, hle⟩ := newest_spec hnewest
  have hmem' : (seq, none) ∈ wordsAbout (before ++ [arrival]) key := by
    rw [wordsAbout_snoc]
    exact List.mem_append_left _ hmem
  have hrow : (receiveAll before).row key = none := by
    cases hrow : (receiveAll before).row key with
    | none => rfl
    | some r =>
      cases r with
      | cached value =>
        rw [hsettled.cached before hbefore key value hrow] at hmem
        cases hmem
      | sequenced value kept =>
        have hkept := row_word before hrow
        have heq : kept = seq :=
          le_antisymm (hle _ hkept) (hsettled.forward before hbefore key value kept hrow _ hmem)
        have hsame := hagree key _ (wordsAbout_mono hbefore hkept) _
          (wordsAbout_mono hbefore hmem) heq
        cases hsame
  have hafter := row_receive (receiveAll before) key arrival
  rw [← receiveAll_snoc, hrow] at hafter
  cases hword : arrival.word key with
  | none =>
    simp only [hword] at hcarries hafter
    obtain ⟨value, hvalue⟩ := Option.isSome_iff_exists.mp hcarries
    simp only [hvalue] at hafter
    rw [hsettled.cached _ h key value hafter] at hmem'
    cases hmem'
  | some word =>
    obtain ⟨older, content⟩ := word
    cases content with
    | none => simp only [hword] at hcarries
    | some value =>
      simp only [hword] at hcarries hafter
      have hge := hsettled.forward _ h key value older hafter _ hmem'
      exact absurd hcarries (not_lt.mpr hge)

/-- What should hold of the arrivals does hold exactly when no older value and no cached block
with a value of a key arrives while the newest word about the key is an absence. -/
theorem arrivalsSettled_iff {arrivals : List (Arrival V)} (hagree : WritesAgree arrivals) :
    ArrivalsSettled arrivals ↔
      ∀ before arrival, before ++ [arrival] <+: arrivals → ∀ key,
        ¬ Resurrects before arrival key := by
  constructor
  · intro hsettled before arrival hbefore key
    exact not_resurrects hagree hsettled hbefore
  · intro hnot
    have htracks : ∀ before, before <+: arrivals → ∀ key, RowTracks before key := by
      intro before hbefore key
      refine rowTracks (hagree.of_isPrefix hbefore) ?_ key
      intro earlier arrival hearlier
      exact hnot earlier arrival (hearlier.trans hbefore)
    constructor
    · intro key word hword hmax
      have hnewest := (newest_eq_some_iff (hagree key)).mpr ⟨hword, hmax⟩
      have hrow := htracks arrivals (List.prefix_refl _) key
      unfold RowTracks at hrow
      obtain ⟨seq, content⟩ := word
      rw [hnewest] at hrow
      cases content with
      | none => simp only [ProjectionValueStore.get, hrow, Option.map_none]
      | some value => simp only [ProjectionValueStore.get, hrow]; rfl
    · intro before hbefore key value hrow
      have htrack := htracks before hbefore key
      unfold RowTracks at htrack
      cases hnewest : newest (wordsAbout before key) with
      | none => exact newest_eq_none_iff.mp hnewest
      | some word =>
        obtain ⟨seq, content⟩ := word
        cases content <;> simp [hnewest, hrow] at htrack
    · intro before hbefore key value seq hrow word hword
      have htrack := htracks before hbefore key
      unfold RowTracks at htrack
      cases hnewest : newest (wordsAbout before key) with
      | none =>
        rw [newest_eq_none_iff.mp hnewest] at hword
        cases hword
      | some last =>
        obtain ⟨lastSeq, content⟩ := last
        have hle := (newest_spec hnewest).2 word hword
        cases content with
        | none => simp [hnewest, hrow] at htrack
        | some kept =>
          simp only [hnewest, hrow, Option.some.injEq, ProjectionRow.sequenced.injEq] at htrack
          rw [htrack.2]
          exact hle

/-! ## A goal that was cleared -/

/-- The Host's goal at position 3, as a frame. -/
def goalFrame : Arrival String := .frame "goal" "ship" 3

/-- The Host's baseline at position 5, by when the goal is gone. -/
def goalCleared : Arrival String := .baseline ⟨5, ⟨[], List.nodup_nil⟩⟩

theorem writesAgree_goal : WritesAgree [goalFrame, goalCleared] := by
  intro key u hu w hw heq
  by_cases hkey : "goal" = key
  · simp only [wordsAbout, List.filterMap_cons, List.filterMap_nil, goalFrame, goalCleared,
      Arrival.word, if_pos hkey, List.lookup_nil, List.mem_cons, List.not_mem_nil, or_false]
      at hu hw
    rcases hu with rfl | rfl <;> rcases hw with rfl | rfl <;> first | rfl | (cases heq)
  · simp only [wordsAbout, List.filterMap_cons, List.filterMap_nil, goalFrame, goalCleared,
      Arrival.word, if_neg hkey, List.lookup_nil, List.mem_cons, List.not_mem_nil, or_false]
      at hu hw
    rw [hu, hw]

/-- The frame arrives after the baseline: the goal that the Host had cleared shows again. In the
order of the positions it stays cleared. -/
theorem stale_frame_resurrects :
    WritesAgree [goalCleared, goalFrame] ∧
      (receiveAll [goalCleared, goalFrame]).get "goal" = some "ship" ∧
      (receiveAll [goalFrame, goalCleared]).get "goal" = none ∧
      ¬ ArrivalsSettled [goalCleared, goalFrame] := by
  have hagree : WritesAgree [goalCleared, goalFrame] := by
    intro key u hu w hw
    have hwords : (wordsAbout [goalCleared, goalFrame] key).Perm
        (wordsAbout [goalFrame, goalCleared] key) := (List.Perm.swap _ _ []).filterMap _
    exact writesAgree_goal key u (hwords.mem_iff.mp hu) w (hwords.mem_iff.mp hw)
  have hshown : (receiveAll [goalCleared, goalFrame]).get "goal" = some "ship" := by
    decide +kernel
  refine ⟨hagree, hshown, by decide +kernel, ?_⟩
  intro hsettled
  have hnone := hsettled.final "goal" (5, none) (by decide +kernel) (by decide +kernel)
  rw [hshown] at hnone
  cases hnone

/-- In the order of the positions everything holds. -/
theorem arrivalsSettled_goal : ArrivalsSettled [goalFrame, goalCleared] := by
  refine (arrivalsSettled_iff writesAgree_goal).mpr ?_
  rintro before arrival ⟨after, hafter⟩ key ⟨seq, hnewest, -⟩
  cases before with
  | nil => cases hnewest
  | cons first rest =>
    cases rest with
    | nil =>
      cases hafter
      by_cases hkey : "goal" = key
      · simp [wordsAbout, goalFrame, Arrival.word, hkey, newest, newer] at hnewest
      · simp [wordsAbout, goalFrame, Arrival.word, hkey] at hnewest
    | cons second rest => simp at hafter

end TianmaCoder
