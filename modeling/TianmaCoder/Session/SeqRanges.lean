import Mathlib.Data.List.Range
import Mathlib.Data.Finset.Card
import TianmaCoder.Lib.Checked
import TianmaCoder.Lib.Json

/-!
# Source sequences as ranges

An event keeps the sequence numbers it was made from. In the log a run of three or more
consecutive numbers is written as the pair of its ends; a list that does not increase is
written as it is.

## Main definitions

* `SeqRanges.encodeSeqRanges`, `SeqRanges.decodeSeqRanges` — the stored form and back.

## Main results

* `decodeSeqRanges_encodeSeqRanges` — distinct earlier numbers are read back as they were.
-/

namespace TianmaCoder

namespace SeqRanges

open Checked

/-- Every value is greater than the one before it. -/
def isStrictlyIncreasing (values : List ℕ) : Bool :=
  (values.zip values.tail).all fun (previous, value) => previous < value

/-- The values after `last` that go on with its run, and the values left. -/
def runFrom (last : ℕ) : List ℕ → List ℕ × List ℕ
  | [] => ([], [])
  | value :: rest =>
    if value = last + 1 then
      let (run, left) := runFrom value rest
      (value :: run, left)
    else ([], value :: rest)

theorem runFrom_append (last : ℕ) (values : List ℕ) :
    (runFrom last values).1 ++ (runFrom last values).2 = values := by
  induction values generalizing last with
  | nil => rfl
  | cons value rest ih =>
    by_cases h : value = last + 1
    · simp [runFrom, h, ih]
    · simp [runFrom, h]

theorem length_left_le (last : ℕ) (values : List ℕ) :
    (runFrom last values).2.length ≤ values.length := by
  have h := congrArg List.length (runFrom_append last values)
  rw [List.length_append] at h
  omega

theorem runFrom_fst (last : ℕ) (values : List ℕ) :
    (runFrom last values).1 = List.range' (last + 1) (runFrom last values).1.length := by
  induction values generalizing last with
  | nil => rfl
  | cons value rest ih =>
    by_cases h : value = last + 1
    · subst h
      simp only [runFrom, if_true, List.length_cons, List.range'_succ]
      exact congrArg _ (ih (last + 1))
    · simp [runFrom, h]

/-- What one run is written as: the pair of its ends, or its values. -/
def encodeRun (start : ℕ) (run : List ℕ) : List Json :=
  if run.length ≥ 2 then [.arr [.nat start, .nat (run.getLastD start)]]
  else (start :: run).map .nat

/-- The loop over the runs of an increasing list. -/
def encodeRuns : List ℕ → List Json
  | [] => []
  | start :: rest =>
    encodeRun start (runFrom start rest).1 ++ encodeRuns (runFrom start rest).2
termination_by values => values.length
decreasing_by
  have h := length_left_le start rest
  simp only [List.length_cons]
  omega

/-- Replace profitable consecutive runs with inclusive pairs. -/
def encodeSeqRanges (values : List ℕ) : List Json :=
  if !isStrictlyIncreasing values then values.map .nat else encodeRuns values

/-- A stored sequence number. -/
def assertSeq (value : Json) : Except String ℕ :=
  match Json.count? (some value) with
  | some seq => .ok seq
  | none => .error "sourceEventSeqs must contain non-negative safe integers"

/-- The numbers from `start` to `last`. -/
def span (start last : ℕ) : List ℕ := List.range' start (last - start + 1)

/-- The decoder between two entries. -/
structure Decoded where
  decoded : List ℕ
  hasRange : Bool
  deriving DecidableEq

/-- One stored entry. -/
def decodeEntry (maxEntries : ℕ) (s : Decoded) (entry : Json) : Except String Decoded :=
  match entry with
  | .int n => do
    let seq ← assertSeq (.int n)
    if s.decoded.length ≥ maxEntries then
      throw "sourceEventSeqs exceeds its event sequence"
    return { s with decoded := s.decoded ++ [seq] }
  | .float _ => .error "sourceEventSeqs must contain non-negative safe integers"
  | .arr [first, last] => do
    let start ← assertSeq first
    let stop ← assertSeq last
    if stop < start then throw "sourceEventSeqs ranges require start <= end"
    if s.decoded.length + (stop - start + 1) > maxEntries then
      throw "sourceEventSeqs range exceeds its event sequence"
    return { decoded := s.decoded ++ span start stop, hasRange := true }
  | _ => .error "sourceEventSeqs range entries must be [start, end] pairs"

/-- Expand the stored form; `maxEntries` is the longest list the owning event may have. -/
def decodeSeqRanges (value : Json) (maxEntries : ℕ) : Except String (List ℕ) :=
  match value with
  | .arr entries => do
    let s ← entries.foldlM (decodeEntry maxEntries) ⟨[], false⟩
    if s.hasRange && !isStrictlyIncreasing s.decoded then
      throw "sourceEventSeqs ranges must be strictly increasing"
    return s.decoded
  | _ => .error "sourceEventSeqs must be an array"

/-! ## The stored form of a list -/

theorem getLastD_run (start : ℕ) (values : List ℕ) :
    (runFrom start values).1.getLastD start = start + (runFrom start values).1.length := by
  have h := runFrom_fst start values
  generalize (runFrom start values).1 = run at h
  cases run with
  | nil => rfl
  | cons value rest =>
    rw [h, List.length_range', List.length_cons, List.range'_concat]
    simp
    omega

/-- A run by its first value and the number of values that follow it. -/
def storedRun (start k : ℕ) : List Json :=
  if 2 ≤ k then [.arr [.nat start, .nat (start + k)]]
  else (List.range' start (k + 1)).map .nat

theorem encodeRun_eq (start : ℕ) (values : List ℕ) :
    encodeRun start (runFrom start values).1 =
      storedRun start (runFrom start values).1.length := by
  have hrun := runFrom_fst start values
  rw [encodeRun, storedRun, getLastD_run, List.range'_succ, ← hrun]

theorem encodeRuns_run (start : ℕ) (values : List ℕ) :
    encodeRuns (start :: values) =
      storedRun start (runFrom start values).1.length ++ encodeRuns (runFrom start values).2 := by
  rw [encodeRuns, encodeRun_eq]

section Reading

variable {ε σ : Type} (step : σ → Json → Except ε σ) (shown : σ → List ℕ → Prop)
  (whole : List ℕ)

/-- A decoder that reads single numbers reads a list of them. -/
theorem foldlM_map_nat (hseq : ∀ s pre v, shown s pre → pre ++ [v] <+: whole →
      ∃ s', step s (.nat v) = .ok s' ∧ shown s' (pre ++ [v])) (values : List ℕ) {s : σ}
    {pre : List ℕ} (hs : shown s pre) (hpre : pre ++ values <+: whole) :
    ∃ s', (values.map Json.nat).foldlM step s = .ok s' ∧ shown s' (pre ++ values) := by
  induction values generalizing s pre with
  | nil => exact ⟨s, rfl, by simpa using hs⟩
  | cons v rest ih =>
    rw [List.append_cons] at hpre ⊢
    have hv : pre ++ [v] <+: whole := (List.prefix_append _ rest).trans hpre
    obtain ⟨s₁, hstep, hs₁⟩ := hseq s pre v hs hv
    obtain ⟨s₂, hrest, hs₂⟩ := ih hs₁ hpre
    refine ⟨s₂, ?_, hs₂⟩
    rw [List.map_cons, List.foldlM_cons, hstep, ok_bind, hrest]

/-- A decoder that also reads the pair of a run's ends reads a list back from its runs. -/
theorem foldlM_encodeRuns (hseq : ∀ s pre v, shown s pre → pre ++ [v] <+: whole →
      ∃ s', step s (.nat v) = .ok s' ∧ shown s' (pre ++ [v]))
    (hrange : ∀ s pre start k, shown s pre → pre ++ List.range' start (k + 1) <+: whole →
      ∃ s', step s (.arr [.nat start, .nat (start + k)]) = .ok s' ∧
        shown s' (pre ++ List.range' start (k + 1))) (values : List ℕ) {s : σ} {pre : List ℕ}
    (hs : shown s pre) (hpre : pre ++ values <+: whole) :
    ∃ s', (encodeRuns values).foldlM step s = .ok s' ∧ shown s' (pre ++ values) := by
  induction values using encodeRuns.induct generalizing s pre with
  | case1 => exact ⟨s, by rw [encodeRuns]; rfl, by simpa using hs⟩
  | case2 start rest ih =>
    have hsplit : start :: rest =
        List.range' start ((runFrom start rest).1.length + 1) ++ (runFrom start rest).2 := by
      rw [List.range'_succ, ← runFrom_fst, List.cons_append, runFrom_append]
    rw [encodeRuns_run, List.foldlM_append]
    rw [hsplit, ← List.append_assoc] at hpre ⊢
    generalize (runFrom start rest).1.length = k at hpre ⊢
    have hrun : pre ++ List.range' start (k + 1) <+: whole :=
      (List.prefix_append _ _).trans hpre
    have hstored : ∃ s', (storedRun start k).foldlM step s = .ok s' ∧
        shown s' (pre ++ List.range' start (k + 1)) := by
      by_cases hk : 2 ≤ k
      · obtain ⟨s₁, hstep, hs₁⟩ := hrange s pre start k hs hrun
        refine ⟨s₁, ?_, hs₁⟩
        rw [storedRun, if_pos hk, List.foldlM_cons, hstep, ok_bind]
        rfl
      · rw [storedRun, if_neg hk]
        exact foldlM_map_nat step shown whole hseq _ hs hrun
    obtain ⟨s₁, hfirst, hs₁⟩ := hstored
    obtain ⟨s₂, hlast, hs₂⟩ := ih hs₁ hpre
    exact ⟨s₂, by rw [hfirst, ok_bind, hlast], hs₂⟩

/-- A decoder that reads single numbers and pairs of ends reads a list back from its stored
form, and has read a pair only where the list increases. -/
theorem foldlM_encodeSeqRanges (decoded : σ → List ℕ) (hasRange : σ → Bool) (init : σ)
    (hinit : decoded init = [] ∧ hasRange init = false)
    (hseq : ∀ s v, decoded s ++ [v] <+: whole → ∃ s', step s (.nat v) = .ok s' ∧
      decoded s' = decoded s ++ [v] ∧ hasRange s' = hasRange s)
    (hrange : ∀ s start k, decoded s ++ List.range' start (k + 1) <+: whole →
      ∃ s', step s (.arr [.nat start, .nat (start + k)]) = .ok s' ∧
        decoded s' = decoded s ++ List.range' start (k + 1)) :
    ∃ s', (encodeSeqRanges whole).foldlM step init = .ok s' ∧ decoded s' = whole ∧
      (hasRange s' && !isStrictlyIncreasing whole) = false := by
  by_cases hsorted : isStrictlyIncreasing whole = true
  · obtain ⟨s, hfold, hs⟩ := foldlM_encodeRuns step (fun s pre => decoded s = pre) whole
      (fun s pre v hs hpre => by
        obtain ⟨s', hstep, hs', -⟩ := hseq s v (hs ▸ hpre)
        exact ⟨s', hstep, hs ▸ hs'⟩)
      (fun s pre start k hs hpre => by
        obtain ⟨s', hstep, hs'⟩ := hrange s start k (hs ▸ hpre)
        exact ⟨s', hstep, hs ▸ hs'⟩) whole hinit.1 (List.prefix_refl whole)
    exact ⟨s, by simpa [encodeSeqRanges, hsorted] using hfold, hs, by simp [hsorted]⟩
  · -- a list that does not increase is written number by number
    obtain ⟨s, hfold, hs, hflag⟩ := foldlM_map_nat step
      (fun s pre => decoded s = pre ∧ hasRange s = false) whole
      (fun s pre v hs hpre => by
        obtain ⟨s', hstep, hs', hflag⟩ := hseq s v (hs.1 ▸ hpre)
        exact ⟨s', hstep, hs.1 ▸ hs', hflag.trans hs.2⟩) whole hinit (List.prefix_refl whole)
    exact ⟨s, by simpa [encodeSeqRanges, hsorted] using hfold, hs, by simp [hflag]⟩

end Reading

/-! ## Reading it back -/

theorem length_le_of_nodup {values : List ℕ} {seq : ℕ} (hnodup : values.Nodup)
    (hearlier : ∀ v ∈ values, v < seq) : values.length ≤ seq := by
  have hsub : values.toFinset ⊆ Finset.range seq := by
    intro v hv
    rw [List.mem_toFinset] at hv
    exact Finset.mem_range.mpr (hearlier v hv)
  have hcard := Finset.card_le_card hsub
  rwa [List.toFinset_card_of_nodup hnodup, Finset.card_range] at hcard

@[simp] theorem assertSeq_nat {n : ℕ} (h : n ≤ Json.maxSafeInteger) :
    assertSeq (.nat n) = .ok n := by
  simp [assertSeq, Json.count?_nat, h]

theorem mem_range'_last (start k : ℕ) : start + k ∈ List.range' start (k + 1) := by
  rw [List.mem_range'_1]
  omega

/-- A number is taken while it leaves the list within its bound. -/
theorem decodeEntry_nat {maxEntries : ℕ} {s : Decoded} {v : ℕ} (hv : v ≤ Json.maxSafeInteger)
    (hroom : s.decoded.length + 1 ≤ maxEntries) :
    decodeEntry maxEntries s (.nat v) = .ok { s with decoded := s.decoded ++ [v] } := by
  have hval : assertSeq (.int (.ofNat v)) = .ok v := assertSeq_nat hv
  have hfits : ¬s.decoded.length ≥ maxEntries := by omega
  simp only [Json.nat, decodeEntry, hval, ok_bind, if_neg hfits, pure_eq]

theorem decodeEntry_range {maxEntries : ℕ} {s : Decoded} {start k : ℕ}
    (hlast : start + k ≤ Json.maxSafeInteger) (hroom : s.decoded.length + (k + 1) ≤ maxEntries) :
    decodeEntry maxEntries s (.arr [.nat start, .nat (start + k)]) =
      .ok ⟨s.decoded ++ List.range' start (k + 1), true⟩ := by
  have hspan : start + k - start + 1 = k + 1 := by omega
  have hfits : ¬s.decoded.length + (k + 1) > maxEntries := by omega
  have horder : ¬start + k < start := by omega
  simp only [decodeEntry, assertSeq_nat hlast, assertSeq_nat (Nat.le_of_add_right_le hlast),
    ok_bind, if_neg horder, pure_eq, span, hspan, if_neg hfits]

/-- Distinct earlier numbers are read back as they were. -/
theorem decodeSeqRanges_encodeSeqRanges {values : List ℕ} {seq : ℕ} (hnodup : values.Nodup)
    (hsafe : ∀ v ∈ values, v ≤ Json.maxSafeInteger) (hearlier : ∀ v ∈ values, v < seq) :
    decodeSeqRanges (.arr (encodeSeqRanges values)) seq = .ok values := by
  have hlength := length_le_of_nodup hnodup hearlier
  obtain ⟨s, hfold, hs, hflag⟩ := foldlM_encodeSeqRanges (decodeEntry seq) values Decoded.decoded
    Decoded.hasRange ⟨[], false⟩ ⟨rfl, rfl⟩
    (fun s v hpre => by
      have hroom := hpre.length_le
      rw [List.length_append, List.length_singleton] at hroom
      exact ⟨_, decodeEntry_nat (hsafe v (hpre.subset (by simp))) (by omega), rfl, rfl⟩)
    (fun s start k hpre => by
      have hroom := hpre.length_le
      rw [List.length_append, List.length_range'] at hroom
      have hlast : start + k ≤ Json.maxSafeInteger :=
        hsafe _ (hpre.subset (List.mem_append_right _ (mem_range'_last start k)))
      exact ⟨_, decodeEntry_range hlast (by omega), rfl⟩)
  simp only [decodeSeqRanges, hfold, ok_bind, hs, hflag]
  rfl

end SeqRanges

end TianmaCoder
