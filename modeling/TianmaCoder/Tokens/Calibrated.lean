import Mathlib.Tactic.Linarith
import TianmaCoder.Tokens.PressureFaithful

/-!
# What calibration keeps of a measurement

Calibration scales the heuristic prices of a measurement and leaves provider usage alone. Every
scaled count is floored at zero, the signed change of the surface included, so a surface that has
shrunk since its anchor is measured as if it had not.

## Main results

* `rescalePressure_iff` — the measurements that keep their laws.
-/

namespace TianmaCoder

open Checked

/-! ## Scaling one count -/

/-- `Math.round(tokens * multiplier)`. -/
def roundTokens (tokens : ℤ) (multiplier : ℚ) : ℤ := ⌊tokens * multiplier + 1 / 2⌋

theorem scaleTokens_eq (tokens : ℤ) (multiplier : ℚ) :
    scaleTokens tokens multiplier = max 0 (roundTokens tokens multiplier) := rfl

/-- A positive multiplier keeps the order of two counts. -/
theorem roundTokens_mono {multiplier : ℚ} (hpos : 0 < multiplier) {a b : ℤ} (h : a ≤ b) :
    roundTokens a multiplier ≤ roundTokens b multiplier := by
  apply Int.floor_le_floor
  have hcast : (a : ℚ) ≤ b := by exact_mod_cast h
  nlinarith

theorem scaleTokens_mono {multiplier : ℚ} (hpos : 0 < multiplier) {a b : ℤ} (h : a ≤ b) :
    scaleTokens a multiplier ≤ scaleTokens b multiplier :=
  max_le_max_left 0 (roundTokens_mono hpos h)

theorem roundTokens_one (tokens : ℤ) : roundTokens tokens 1 = tokens := by
  unfold roundTokens
  rw [Int.floor_eq_iff]
  constructor
  · simp
  · linarith

theorem scaleTokens_one (tokens : ℤ) : scaleTokens tokens 1 = max 0 tokens := by
  rw [scaleTokens_eq, roundTokens_one]

theorem scaleTokens_zero (multiplier : ℚ) : scaleTokens 0 multiplier = 0 := by
  have hround : roundTokens 0 multiplier = 0 := by
    unfold roundTokens
    rw [Int.floor_eq_iff]
    constructor <;> norm_num
  rw [scaleTokens_eq, hround]
  rfl

theorem scaled_one_iff (baseline : TokenMeasurementBaseline) :
    baseline.scaled 1 = baseline ↔ ∀ tokens, baseline = .estimated tokens → 0 ≤ tokens := by
  cases baseline with
  | none => simp [TokenMeasurementBaseline.scaled]
  | usage tokens usage => simp [TokenMeasurementBaseline.scaled]
  | estimated tokens => simp [TokenMeasurementBaseline.scaled, scaleTokens_one]

section Laws

variable [NumberText] {meter : Meter} {logRevision : ℕ} {state : ReplayState}
  {requestHeader : Option Json} {measurement : PressureMeasurement} {multiplier : ℚ}

/-! ## Measurements of the meter -/

/-- What every measurement of the meter satisfies by its construction. -/
structure Measured (measurement : PressureMeasurement) : Prop where
  surfaceTokens : measurement.surfaceTokens = (measurement.nodes.map (·.tokens)).sum
  totalTokens : measurement.totalTokens
    = max 0 (measurement.baseline.tokens + measurement.surfaceDeltaTokens)
  heuristicTokens : ∀ node ∈ measurement.nodes, 0 ≤ node.heuristicTokens

theorem measured_of_pressureOf
    (h : meter.pressureOf logRevision state requestHeader = .ok measurement) :
    Measured measurement := by
  unfold Meter.pressureOf at h
  obtain ⟨priced, hpriced, h⟩ := bind_ok h
  obtain ⟨⟨baseline, delta⟩, -, h⟩ := bind_ok h
  cases h
  refine ⟨rfl, rfl, ?_⟩
  intro node hnode
  have hpair : (node.seq, node.heuristicTokens) ∈
      state.surface.map fun node => (node.seq, (node.heuristicTokens : ℤ)) := by
    rw [← priceSurface_heuristic hpriced]
    exact List.mem_map_of_mem (f := fun node => (node.seq, node.heuristicTokens)) hnode
  obtain ⟨source, -, heq⟩ := List.mem_map.mp hpair
  have hprice : (source.heuristicTokens : ℤ) = node.heuristicTokens := congrArg Prod.snd heq
  omega

/-- Where no anchor matches, the whole request is scaled. -/
theorem scaled_unanchoredBaseline (header : Option Json) (surfaceTokens : ℤ) :
    ((unanchoredBaseline header surfaceTokens).scaled multiplier).tokens
      = scaleTokens (headerTokens header + surfaceTokens) multiplier := by
  unfold unanchoredBaseline
  split
  · next hnone =>
      have hzero : (headerTokens header : ℤ) + surfaceTokens = 0 := by
        rw [hnone.1, hnone.2]
        rfl
      rw [hzero, scaleTokens_zero]
      rfl
  · rfl

/-- The scaled baseline and the signed change grow with the surface. -/
theorem baselineOf_mono (hpos : 0 < multiplier) {smaller : ReplayState} {header : Option Json}
    (hanchor : smaller.anchor = state.anchor) {less more : ℤ} (hle : less ≤ more)
    {lessBaseline moreBaseline : TokenMeasurementBaseline} {lessDelta moreDelta : ℤ}
    (hless : meter.baselineOf smaller header less = .ok (lessBaseline, lessDelta))
    (hmore : meter.baselineOf state header more = .ok (moreBaseline, moreDelta)) :
    (lessBaseline.scaled multiplier).tokens ≤ (moreBaseline.scaled multiplier).tokens ∧
      lessDelta ≤ moreDelta := by
  have hunanchored : ((unanchoredBaseline header less).scaled multiplier).tokens
      ≤ ((unanchoredBaseline header more).scaled multiplier).tokens := by
    rw [scaled_unanchoredBaseline, scaled_unanchoredBaseline]
    exact scaleTokens_mono hpos (by omega)
  unfold Meter.baselineOf at hless hmore
  rw [hanchor] at hless
  cases hstate : state.anchor with
  | none =>
    rw [hstate] at hless hmore
    cases hless
    cases hmore
    exact ⟨hunanchored, le_refl _⟩
  | some anchor =>
    rw [hstate] at hless hmore
    simp only at hless hmore
    by_cases hheader : optionalHeaderEquals anchor.header header = true
    · rw [if_pos hheader] at hless hmore
      obtain ⟨nodes, hnodes, hless⟩ := bind_ok hless
      obtain ⟨again, hagain, hmore⟩ := bind_ok hmore
      rw [hnodes] at hagain
      cases hagain
      cases hless
      cases hmore
      exact ⟨le_refl _, by omega⟩
    · rw [if_neg hheader] at hless hmore
      cases hless
      cases hmore
      exact ⟨hunanchored, le_refl _⟩

/-! ## The laws of a measurement -/

/-- A measurement rescaled by its laws: the surface is the sum of its nodes, provider usage stays,
the signed change is scaled and rounded, the total is the baseline with it, one changes nothing,
and a smaller surface has no larger total. -/
structure Calibrates (meter : Meter) (state : ReplayState) (requestHeader : Option Json)
    (multiplier : ℚ) (measurement rescaled : PressureMeasurement) : Prop where
  surfaceTokens : rescaled.surfaceTokens = (rescaled.nodes.map (·.tokens)).sum
  usage : measurement.baseline.isUsage = true → rescaled.baseline = measurement.baseline
  surfaceDeltaTokens :
    rescaled.surfaceDeltaTokens = roundTokens measurement.surfaceDeltaTokens multiplier
  totalTokens : rescaled.totalTokens
    = max 0 (rescaled.baseline.tokens + rescaled.surfaceDeltaTokens)
  identity : multiplier = 1 → rescaled = measurement
  monotone : ∀ (revision : ℕ) (smaller : ReplayState) (less : PressureMeasurement),
    smaller.anchor = state.anchor → smaller.header = state.header →
    meter.pressureOf revision smaller requestHeader = .ok less →
    less.surfaceTokens ≤ measurement.surfaceTokens →
    (rescalePressure less multiplier).totalTokens ≤ rescaled.totalTokens

/-- A smaller surface under the same anchor and header has no larger rescaled total. -/
theorem rescalePressure_mono (hpos : 0 < multiplier)
    (h : meter.pressureOf logRevision state requestHeader = .ok measurement) {revision : ℕ}
    {smaller : ReplayState} {less : PressureMeasurement} (hanchor : smaller.anchor = state.anchor)
    (hheader : smaller.header = state.header)
    (hless : meter.pressureOf revision smaller requestHeader = .ok less)
    (hle : less.surfaceTokens ≤ measurement.surfaceTokens) :
    (rescalePressure less multiplier).totalTokens
      ≤ (rescalePressure measurement multiplier).totalTokens := by
  unfold Meter.pressureOf at h hless
  rw [hheader] at hless
  obtain ⟨nodes, -, h⟩ := bind_ok h
  obtain ⟨⟨baseline, delta⟩, hbaseline, h⟩ := bind_ok h
  obtain ⟨lessNodes, -, hless⟩ := bind_ok hless
  obtain ⟨⟨lessBaseline, lessDelta⟩, hlessBaseline, hless⟩ := bind_ok hless
  cases h
  cases hless
  obtain ⟨hbase, hdelta⟩ := baselineOf_mono hpos hanchor hle hlessBaseline hbaseline
  have hscaled : scaleTokens lessDelta multiplier ≤ scaleTokens delta multiplier :=
    scaleTokens_mono hpos hdelta
  simp only [rescalePressure]
  exact max_le_max_left 0 (by omega)

omit [NumberText] in
/-- Rescaling by one changes nothing exactly when no count is negative. -/
theorem rescalePressure_one_iff (h : Measured measurement) :
    rescalePressure measurement 1 = measurement ↔
      0 ≤ measurement.surfaceDeltaTokens ∧ (∀ node ∈ measurement.nodes, 0 ≤ node.tokens) ∧
        ∀ tokens, measurement.baseline = .estimated tokens → 0 ≤ tokens := by
  rw [← scaled_one_iff]
  constructor
  · intro heq
    refine ⟨?_, ?_, congrArg (·.baseline) heq⟩
    · have hdelta := congrArg (·.surfaceDeltaTokens) heq
      simp only [rescalePressure, scaleTokens_one] at hdelta
      omega
    · have hnodes := congrArg (·.nodes) heq
      simp only [rescalePressure, rescaleMeasurement, scaleTokens_one] at hnodes
      intro node hnode
      have hscaled := List.map_inj_left.mp (hnodes.trans (List.map_id _).symm) node hnode
      have htokens : max 0 node.tokens = node.tokens := congrArg (·.tokens) hscaled
      omega
  · rintro ⟨hdelta, hnodes, hbaseline⟩
    have hsame : (measurement.nodes.map fun node => (⟨node.seq, scaleTokens node.tokens 1,
        scaleTokens node.heuristicTokens 1⟩ : TokenSurfaceNode)) = measurement.nodes := by
      refine (List.map_congr_left fun node hnode => ?_).trans (List.map_id _)
      rw [scaleTokens_one, scaleTokens_one, max_eq_right (hnodes node hnode),
        max_eq_right (h.heuristicTokens node hnode)]
      rfl
    have hscaled : scaleTokens measurement.surfaceDeltaTokens 1 = measurement.surfaceDeltaTokens := by
      rw [scaleTokens_one, max_eq_right hdelta]
    simp only [rescalePressure, rescaleMeasurement, hsame, hbaseline, hscaled, ← h.surfaceTokens,
      ← h.totalTokens]

/-- A measurement keeps its laws exactly when its signed change does not round below zero and,
for the multiplier one, none of its counts is negative. -/
theorem rescalePressure_iff (h : meter.pressureOf logRevision state requestHeader = .ok measurement)
    (hpos : 0 < multiplier) :
    Calibrates meter state requestHeader multiplier measurement
        (rescalePressure measurement multiplier) ↔
      0 ≤ roundTokens measurement.surfaceDeltaTokens multiplier ∧
        (multiplier = 1 → (∀ node ∈ measurement.nodes, 0 ≤ node.tokens) ∧
          ∀ tokens, measurement.baseline = .estimated tokens → 0 ≤ tokens) := by
  have hmeasured := measured_of_pressureOf h
  constructor
  · intro hlaws
    refine ⟨?_, ?_⟩
    · have hdelta := hlaws.surfaceDeltaTokens
      simp only [rescalePressure, scaleTokens_eq] at hdelta
      omega
    · intro hone
      have hidentity := hlaws.identity hone
      rw [hone] at hidentity
      exact ((rescalePressure_one_iff hmeasured).mp hidentity).2
  · rintro ⟨hdelta, hone⟩
    refine ⟨rfl, ?_, ?_, rfl, ?_, ?_⟩
    · intro husage
      cases hbaseline : measurement.baseline with
      | none => rw [hbaseline] at husage; cases husage
      | estimated tokens => rw [hbaseline] at husage; cases husage
      | usage tokens usage => simp [rescalePressure, hbaseline, TokenMeasurementBaseline.scaled]
    · exact max_eq_right hdelta
    · intro hmultiplier
      subst hmultiplier
      rw [roundTokens_one] at hdelta
      exact (rescalePressure_one_iff hmeasured).mpr ⟨hdelta, hone rfl⟩
    · intro revision smaller less hanchor hheader hless hle
      exact rescalePressure_mono hpos h hanchor hheader hless hle

end Laws

/-! ## A compacted surface -/

section Compacted

private instance calibratedText : NumberText := ⟨fun _ => 22, fun _ => 18⟩

def userAt (seq : ℕ) (text : String) (op : Json) (sources : Option Json) : SessionEvent where
  type := .userMessage
  seq := seq
  time := 0
  data := meteredMessage "user" (.obj [("kind", .str "user")])
    [.obj [("type", .str "text"), ("text", .str text)]]
  surfaceOp := some op
  sourceEventSeqs := sources

/-- A call that reports usage over a prompt. -/
def promptedCall : List SessionEvent :=
  openedStep ++ [userAt 3 "a rather long first prompt" (.str "append") none,
    meteredAt .assistantMessage 4
      [("message", meteredMessage "assistant" modelSource
          [.obj [("type", .str "text"), ("text", .str "ok")]]),
        ("usage", .obj [("inputTokens", .nat 40), ("outputTokens", .nat 2)]),
        ("stream", .arr [.obj [("type", .str "text-chunks"), ("index", .nat 0),
          ("texts", .arr [.str "ok"])]])]]

/-- The prompt is then replaced by a short one. -/
def compactedCall : List SessionEvent :=
  promptedCall ++ [userAt 5 "cut" (.obj [("op", .str "replace"), ("startSeq", .nat 3),
    ("endSeq", .nat 3)]) (some (.arr [.nat 3]))]

/-- The whole surface of a call is rescaled by its laws. -/
theorem rescalePressure_iff_prompted :
    ∃ state measurement, promptedCall.foldlM ReplayState.foldEvent .init = .ok state ∧
      emptyTextMeter.pressureOf 5 state none = .ok measurement ∧
      Calibrates emptyTextMeter state none (5 / 4) measurement
        (rescalePressure measurement (5 / 4)) := by
  refine ⟨_, _, rfl, rfl, (rescalePressure_iff rfl (by norm_num)).mpr ⟨?_, ?_⟩⟩
  · decide +kernel
  · intro hone
    norm_num at hone

/-- The surface has shrunk since the call: its change is erased, also by the multiplier one. -/
theorem compactedCall_not_calibrated :
    (∃ acc, foldSurfaceState compactedCall [] = .ok acc) ∧
    (∃ trace, runTrace compactedCall = .ok trace) ∧
    ∃ state measurement, compactedCall.foldlM ReplayState.foldEvent .init = .ok state ∧
      emptyTextMeter.pressureOf 6 state none = .ok measurement ∧
      ¬Calibrates emptyTextMeter state none 1 measurement (rescalePressure measurement 1) ∧
      measurement.totalTokens < (rescalePressure measurement 1).totalTokens := by
  refine ⟨⟨_, rfl⟩, ⟨_, rfl⟩, _, _, rfl, rfl, ?_, ?_⟩
  · intro h
    exact absurd h.surfaceDeltaTokens (by decide +kernel)
  · decide +kernel

end Compacted

end TianmaCoder
