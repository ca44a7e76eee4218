import TianmaCoder.Session.SeqRanges

/-!
# The frozen range codec of format v2

The format package keeps its own copy of the range codec. Its encoder follows a run by value
instead of by index, and its decoder asks that every source is an earlier one and comes once.

## Main results

* `ReleasedV2.encodeSeqRanges_eq` — both encoders write the same.
* `ReleasedV2.ranges_lossless` — the codecs read each other's lists, and what the frozen decoder
  accepts can be written again.
-/

namespace TianmaCoder

namespace ReleasedV2

open Checked

/-- `sessionFormatCount(value, label)`. -/
def sessionFormatCount (value : Json) (label : String) : Except String ℕ :=
  match Json.count? (some value) with
  | some n => .ok n
  | none => .error s!"{label} must be a non-negative safe integer"

/-- One stored entry, after the list `output`; the flag tells whether a range was read. -/
def decodeEntry (maxEntries : ℕ) (s : List ℕ × Bool) (entry : Json) :
    Except String (List ℕ × Bool) :=
  match entry with
  | .arr [first, last] => do
    let start ← sessionFormatCount first "sourceEventSeqs range start"
    let stop ← sessionFormatCount last "sourceEventSeqs range end"
    if start > stop ∨ stop ≥ maxEntries ∨ s.1.length + (stop - start + 1) > maxEntries then
      throw "sourceEventSeqs range exceeds its event seq"
    return (s.1 ++ List.range' start (stop - start + 1), true)
  | .arr _ => .error "sourceEventSeqs range must be a [start, end] pair"
  | entry => do
    let seq ← sessionFormatCount entry "sourceEventSeqs member"
    return (s.1 ++ [seq], s.2)

/-- The pass over the decoded list with the set of sources seen. -/
def assertUniqueEarlier (maxEntries : ℕ) (seen : List ℕ) (source : ℕ) :
    Except String (List ℕ) :=
  if source ≥ maxEntries ∨ source ∈ seen then
    .error "sourceEventSeqs ranges must contain unique earlier seqs"
  else .ok (seen ++ [source])

/-- Some value is not greater than the one before it. -/
def someNotIncreasing (values : List ℕ) : Bool :=
  (values.zip values.tail).any fun (previous, value) => value ≤ previous

def decodeSeqRanges (value : Json) (maxEntries : ℕ) : Except String (List ℕ) :=
  match value with
  | .arr entries => do
    let (output, hasRange) ← entries.foldlM (decodeEntry maxEntries) ([], false)
    let _ ← output.foldlM (assertUniqueEarlier maxEntries) []
    if hasRange && someNotIncreasing output then
      throw "sourceEventSeqs ranges must be strictly increasing"
    return output
  | _ => .error "sourceEventSeqs must be an array"

/-- The last value of the run that goes on after `last`, and the values left. -/
def runEnd (last : ℕ) : List ℕ → ℕ × List ℕ
  | [] => (last, [])
  | value :: rest => if value = last + 1 then runEnd (last + 1) rest else (last, value :: rest)

theorem runEnd_eq (last : ℕ) (values : List ℕ) :
    runEnd last values = (last + (SeqRanges.runFrom last values).1.length,
      (SeqRanges.runFrom last values).2) := by
  induction values generalizing last with
  | nil => rfl
  | cons value rest ih =>
    by_cases h : value = last + 1
    · subst h
      simp [runEnd, SeqRanges.runFrom, ih]
      omega
    · simp [runEnd, SeqRanges.runFrom, h]

/-- The loop of the encoder. -/
def encodeLoop : List ℕ → List Json
  | [] => []
  | start :: rest =>
    let stop := (runEnd start rest).1
    let first := if stop - start ≥ 2 then .arr [.nat start, .nat stop] else Json.nat start
    let second := if stop - start = 1 then [.nat stop] else []
    first :: second ++ encodeLoop (runEnd start rest).2
termination_by values => values.length
decreasing_by
  have h := SeqRanges.length_left_le start rest
  simp only [List.length_cons, runEnd_eq]
  omega

def encodeSeqRanges (values : List ℕ) : List Json :=
  if someNotIncreasing values then values.map .nat else encodeLoop values

/-! ## Both encoders write the same -/

theorem someNotIncreasing_eq (values : List ℕ) :
    someNotIncreasing values = !SeqRanges.isStrictlyIncreasing values := by
  rw [someNotIncreasing, SeqRanges.isStrictlyIncreasing, List.not_all_eq_any_not]
  congr 1
  funext pair
  simp [← decide_not]

theorem encodeLoop_eq (values : List ℕ) : encodeLoop values = SeqRanges.encodeRuns values := by
  induction values using SeqRanges.encodeRuns.induct with
  | case1 => rw [encodeLoop, SeqRanges.encodeRuns]
  | case2 start rest ih =>
    rw [encodeLoop, SeqRanges.encodeRuns_run, runEnd_eq, ih]
    generalize (SeqRanges.runFrom start rest).1.length = k
    have hk : start + k - start = k := by omega
    simp only [hk, SeqRanges.storedRun]
    by_cases hlong : 2 ≤ k
    · have hne : k ≠ 1 := by omega
      simp [hlong, hne]
    · by_cases hpair : k = 1
      · subst hpair
        rfl
      · have hzero : k = 0 := by omega
        subst hzero
        rfl

theorem encodeSeqRanges_eq (values : List ℕ) :
    encodeSeqRanges values = SeqRanges.encodeSeqRanges values := by
  rw [encodeSeqRanges, SeqRanges.encodeSeqRanges, someNotIncreasing_eq, encodeLoop_eq]

/-! ## Reading it back -/

@[simp] theorem sessionFormatCount_nat {n : ℕ} (h : n ≤ Json.maxSafeInteger) (label : String) :
    sessionFormatCount (.nat n) label = .ok n := by
  simp [sessionFormatCount, Json.count?_nat, h]

theorem le_of_sessionFormatCount {value : Json} {label : String} {n : ℕ}
    (h : sessionFormatCount value label = .ok n) : n ≤ Json.maxSafeInteger := by
  unfold sessionFormatCount at h
  cases hn : Json.count? (some value) with
  | none => rw [hn] at h; cases h
  | some m =>
    rw [hn] at h
    cases h
    have hval := Json.eq_nat_of_count? hn
    rw [hval, Json.count?_nat] at hn
    by_contra hlt
    rw [if_neg hlt] at hn
    cases hn

variable {maxEntries : ℕ} {output : List ℕ}

/-- The pass over the list accepts exactly distinct earlier sources. -/
theorem foldlM_assertUniqueEarlier (hnodup : output.Nodup) (hearlier : ∀ v ∈ output, v < maxEntries) :
    output.foldlM (assertUniqueEarlier maxEntries) [] = .ok output := by
  induction output using List.reverseRecOn with
  | nil => rfl
  | append_singleton output v ih =>
    have hsplit := List.nodup_append.mp hnodup
    have hfresh : v ∉ output := fun hv => hsplit.2.2 v hv v (by simp) rfl
    have hv : ¬(v ≥ maxEntries ∨ v ∈ output) := by
      rintro (hle | hmem)
      · have hlt := hearlier v (by simp)
        omega
      · exact hfresh hmem
    rw [foldlM_snoc, ih hsplit.1 fun w hw => hearlier w (List.mem_append_left [v] hw), ok_bind,
      assertUniqueEarlier, if_neg hv]

theorem of_assertUniqueEarlier {seen : List ℕ}
    (h : output.foldlM (assertUniqueEarlier maxEntries) [] = .ok seen) :
    output.Nodup ∧ ∀ v ∈ output, v < maxEntries := by
  have hinv := foldlM_induction h
    (motive := fun pre seen => seen = pre ∧ pre.Nodup ∧ ∀ v ∈ pre, v < maxEntries)
    ⟨rfl, List.nodup_nil, fun v hv => absurd hv List.not_mem_nil⟩ ?_
  · exact hinv.2
  · intro pre v seen₁ seen₂ _ ⟨hseen, hnodup, hearlier⟩ hstep
    subst hseen
    rw [assertUniqueEarlier, guard_ok_iff, Except.ok.injEq] at hstep
    have hlt : v < maxEntries := by
      by_contra hge
      exact hstep.1 (.inl (by omega))
    have hfresh : v ∉ seen₁ := fun hv => hstep.1 (.inr hv)
    refine ⟨hstep.2.symm, ?_, ?_⟩
    · rw [← List.concat_eq_append]
      exact hnodup.concat hfresh
    · intro w hw
      cases List.mem_append.mp hw with
      | inl hw => exact hearlier w hw
      | inr hw => exact List.mem_singleton.mp hw ▸ hlt

variable {s : List ℕ × Bool}

theorem decodeEntry_nat {v : ℕ} (hv : v ≤ Json.maxSafeInteger) :
    decodeEntry maxEntries s (.nat v) = .ok (s.1 ++ [v], s.2) := by
  have hval : sessionFormatCount (.int (.ofNat v)) "sourceEventSeqs member" = .ok v :=
    sessionFormatCount_nat hv _
  simp only [Json.nat, decodeEntry, hval, ok_bind, pure_eq]

theorem decodeEntry_range {start k : ℕ} (hlast : start + k ≤ Json.maxSafeInteger)
    (hearlier : start + k < maxEntries) (hroom : s.1.length + (k + 1) ≤ maxEntries) :
    decodeEntry maxEntries s (.arr [.nat start, .nat (start + k)]) =
      .ok (s.1 ++ List.range' start (k + 1), true) := by
  have hspan : start + k - start + 1 = k + 1 := by omega
  have hfits : ¬(start > start + k ∨ start + k ≥ maxEntries ∨
      s.1.length + (k + 1) > maxEntries) := by omega
  simp only [decodeEntry, sessionFormatCount_nat hlast,
    sessionFormatCount_nat (Nat.le_of_add_right_le hlast), ok_bind, pure_eq, hspan, if_neg hfits]

/-- Distinct earlier numbers are read back as they were. -/
theorem decodeSeqRanges_encodeSeqRanges {values : List ℕ} {seq : ℕ} (hnodup : values.Nodup)
    (hsafe : ∀ v ∈ values, v ≤ Json.maxSafeInteger) (hearlier : ∀ v ∈ values, v < seq) :
    decodeSeqRanges (.arr (encodeSeqRanges values)) seq = .ok values := by
  have hlength := SeqRanges.length_le_of_nodup hnodup hearlier
  have hunique := foldlM_assertUniqueEarlier hnodup hearlier
  obtain ⟨s, hfold, hs, hflag⟩ := SeqRanges.foldlM_encodeSeqRanges (decodeEntry seq) values Prod.fst
    Prod.snd ([], false) ⟨rfl, rfl⟩
    (fun s v hpre => ⟨_, decodeEntry_nat (hsafe v (hpre.subset (by simp))), rfl, rfl⟩)
    (fun s start k hpre => by
      have hroom := hpre.length_le
      rw [List.length_append, List.length_range'] at hroom
      have hmem : start + k ∈ values :=
        hpre.subset (List.mem_append_right _ (SeqRanges.mem_range'_last start k))
      exact ⟨_, decodeEntry_range (hsafe _ hmem) (hearlier _ hmem) (by omega), rfl⟩)
  rw [← someNotIncreasing_eq] at hflag
  simp only [encodeSeqRanges_eq, decodeSeqRanges, hfold, ok_bind, hs, hunique, hflag]
  rfl

/-! ## What the decoder accepts -/

theorem safe_of_decodeEntry {s' : List ℕ × Bool} {entry : Json}
    (h : decodeEntry maxEntries s entry = .ok s') (hsafe : ∀ v ∈ s.1, v ≤ Json.maxSafeInteger) :
    ∀ v ∈ s'.1, v ≤ Json.maxSafeInteger := by
  have hsingle : ∀ entry : Json, (do
      let seq ← sessionFormatCount entry "sourceEventSeqs member"
      return (s.1 ++ [seq], s.2)) = Except.ok s' → ∀ v ∈ s'.1, v ≤ Json.maxSafeInteger := by
    intro entry h
    rw [bind_ok_iff] at h
    obtain ⟨seq, hseq, h⟩ := h
    cases h
    intro v hv
    cases List.mem_append.mp hv with
    | inl hv => exact hsafe v hv
    | inr hv => exact List.mem_singleton.mp hv ▸ le_of_sessionFormatCount hseq
  unfold decodeEntry at h
  split at h
  · rw [bind_ok_iff] at h
    obtain ⟨start, _, h⟩ := h
    rw [bind_ok_iff] at h
    obtain ⟨stop, hstop, h⟩ := h
    simp only [throw_eq, error_bind, guard_ok_iff, pure_eq, Except.ok.injEq] at h
    have hle := le_of_sessionFormatCount hstop
    obtain ⟨hok, hs'⟩ := h
    subst hs'
    intro v hv
    cases List.mem_append.mp hv with
    | inl hv => exact hsafe v hv
    | inr hv =>
      rw [List.mem_range'_1] at hv
      omega
  · cases h
  · exact hsingle entry h

/-- An accepted form stands for distinct earlier safe numbers. -/
theorem of_decodeSeqRanges {value : Json} {seq : ℕ} (h : decodeSeqRanges value seq = .ok output) :
    output.Nodup ∧ (∀ v ∈ output, v ≤ Json.maxSafeInteger) ∧ ∀ v ∈ output, v < seq := by
  unfold decodeSeqRanges at h
  split at h
  · rw [bind_ok_iff] at h
    obtain ⟨s, hfold, h⟩ := h
    rw [bind_ok_iff] at h
    obtain ⟨seen, hunique, h⟩ := h
    simp only [throw_eq, error_bind, guard_ok_iff, pure_eq, Except.ok.injEq] at h
    have hsafe := foldlM_induction hfold
      (motive := fun _ s => ∀ v ∈ s.1, v ≤ Json.maxSafeInteger)
      (fun v hv => absurd hv List.not_mem_nil)
      (fun _ _ _ _ _ hs hstep => safe_of_decodeEntry hstep hs)
    have hout := of_assertUniqueEarlier hunique
    obtain ⟨_, hs⟩ := h
    subst hs
    exact ⟨hout.1, hsafe, hout.2⟩
  · cases h

/-- Both codecs write distinct earlier sources in one form and read it back, each the other's
too; and what the frozen decoder accepts is a list of that kind, which it reads again from the
form the encoders give it. -/
theorem ranges_lossless {values : List ℕ} {seq : ℕ} (hnodup : values.Nodup)
    (hsafe : ∀ v ∈ values, v ≤ Json.maxSafeInteger) (hearlier : ∀ v ∈ values, v < seq) :
    SeqRanges.encodeSeqRanges values = encodeSeqRanges values ∧
      SeqRanges.decodeSeqRanges (.arr (encodeSeqRanges values)) seq = .ok values ∧
      decodeSeqRanges (.arr (encodeSeqRanges values)) seq = .ok values ∧
      ∀ (stored : Json) (bound : ℕ) (output : List ℕ), decodeSeqRanges stored bound = .ok output →
        output.Nodup ∧ (∀ v ∈ output, v < bound) ∧
          decodeSeqRanges (.arr (encodeSeqRanges output)) bound = .ok output ∧
          SeqRanges.decodeSeqRanges (.arr (SeqRanges.encodeSeqRanges output)) bound =
            .ok output := by
  refine ⟨(encodeSeqRanges_eq values).symm, ?_, ?_, ?_⟩
  · rw [encodeSeqRanges_eq]
    exact SeqRanges.decodeSeqRanges_encodeSeqRanges hnodup hsafe hearlier
  · exact decodeSeqRanges_encodeSeqRanges hnodup hsafe hearlier
  · intro stored bound output h
    obtain ⟨hnodup, hsafe, hearlier⟩ := of_decodeSeqRanges h
    exact ⟨hnodup, hearlier, decodeSeqRanges_encodeSeqRanges hnodup hsafe hearlier,
      SeqRanges.decodeSeqRanges_encodeSeqRanges hnodup hsafe hearlier⟩

/-- The bound may be one past the largest safe integer, and the order any. -/
theorem ranges_lossless_unsorted :
    SeqRanges.encodeSeqRanges [2 ^ 53 - 2, 0, 2 ^ 53 - 1] =
        encodeSeqRanges [2 ^ 53 - 2, 0, 2 ^ 53 - 1] ∧
      SeqRanges.decodeSeqRanges (.arr (encodeSeqRanges [2 ^ 53 - 2, 0, 2 ^ 53 - 1])) (2 ^ 53) =
        .ok [2 ^ 53 - 2, 0, 2 ^ 53 - 1] ∧
      decodeSeqRanges (.arr (encodeSeqRanges [2 ^ 53 - 2, 0, 2 ^ 53 - 1])) (2 ^ 53) =
        .ok [2 ^ 53 - 2, 0, 2 ^ 53 - 1] := by
  have hnodup : [2 ^ 53 - 2, 0, 2 ^ 53 - 1].Nodup := by decide
  have hsafe : ∀ v ∈ [2 ^ 53 - 2, 0, 2 ^ 53 - 1], v ≤ Json.maxSafeInteger := by decide
  have hearlier : ∀ v ∈ [2 ^ 53 - 2, 0, 2 ^ 53 - 1], v < 2 ^ 53 := by decide
  have h := ranges_lossless hnodup hsafe hearlier
  exact ⟨h.1, h.2.1, h.2.2.1⟩

end ReleasedV2

end TianmaCoder
