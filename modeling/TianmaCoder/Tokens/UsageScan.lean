import Mathlib.Algebra.Order.Field.Rat
import TianmaCoder.Format.AssistantStream
import TianmaCoder.Session.Invariant
import TianmaCoder.Session.SurfaceManager
import TianmaCoder.Tokens.Projections

/-!
# Scanning a log for reported usage

The calibrator learns from the usage that providers report. Its scan looks for the stream inside
the message of a settlement, as bare chunks; a log keeps the stream beside the message, as compact
records. The scan therefore finds nothing in any log whose messages are of the declared type, and
it is right exactly for the logs that report nothing.

## Main definitions

* `scanSessionUsages`, `UsageCalibrator.recordSession` — the scan and what it records.
* `reportedSamples` — the samples that the compact streams of a log carry.

## Main results

* `scanSessionUsages_iff` — the logs of which the scan finds every sample.
-/

namespace TianmaCoder

open Checked

/-! ## The scan -/

/-- One reported usage sample found in a session log. -/
structure UsageSample where
  totalTokens : ℤ
  outputTokens : Option ℤ
  deriving DecidableEq

/-- A number member that may be absent. -/
def numberMember (value : Option Json) : Option ℤ := value.map fun v => intMember (some v)

/-- The sample of one chunk of the walked shape. -/
def scanChunk (chunk : Json) : Option UsageSample :=
  if chunk.get? "type" ≠ some (.str "usage") then none
  else
    match chunk.get? "usage" with
    | none => none
    | some usage =>
      let outputTokens := numberMember (usage.get? "outputTokens")
      let total :=
        match numberMember (usage.get? "totalTokens") with
        | some total => some total
        | none =>
          match numberMember (usage.get? "inputTokens"), outputTokens with
          | some input, some output => some (input + output)
          | _, _ => none
      match total with
      | some total => if 0 < total then some ⟨total, outputTokens⟩ else none
      | none => none

/-- Scan the event list of a session for provider-reported usage samples. -/
def scanSessionUsages (events : List SessionEvent) : List UsageSample :=
  events.flatMap fun event =>
    if event.type = .assistantMessage then
      match event.data.path ["message", "stream"] with
      | some (.arr stream) => stream.filterMap scanChunk
      | _ => []
    else []

/-! ## Recording -/

/-- Rolling calibration over a bounded sample window. -/
structure CalibrationFactor where
  ratios : List ℚ
  window : ℕ

namespace CalibrationFactor

def factorMin : ℚ := 1 / 4
def factorMax : ℚ := 4

def clamp (value : ℚ) : ℚ := min factorMax (max factorMin value)

/-- Record one (estimated, reported) request sample. -/
def addSample (factor : CalibrationFactor) (estimatedTokens reportedTokens : ℚ) :
    CalibrationFactor :=
  if estimatedTokens ≤ 0 ∨ reportedTokens ≤ 0 then factor
  else
    let ratios := factor.ratios ++ [clamp (reportedTokens / estimatedTokens)]
    { factor with ratios := if factor.window < ratios.length then ratios.tail else ratios }

end CalibrationFactor

/-- The calibration service: its rolling factor. -/
structure UsageCalibrator where
  factor : CalibrationFactor

namespace UsageCalibrator

/-- Record one heuristic-vs-reported pair from a routed request. -/
def record (calibrator : UsageCalibrator) (estimatedTokens : ℚ) (reportedTokens : ℤ) :
    UsageCalibrator :=
  { calibrator with factor := calibrator.factor.addSample estimatedTokens reportedTokens }

/-- Record samples one after the other, each against the estimate at its index. -/
def recordSamples (calibrator : UsageCalibrator) (estimateTokens : ℕ → ℚ)
    (samples : List UsageSample) : UsageCalibrator :=
  samples.zipIdx.foldl (fun calibrator sample =>
    calibrator.record (estimateTokens sample.2) sample.1.totalTokens) calibrator

/-- Scan one session and record each sample; how many were recorded. -/
def recordSession (calibrator : UsageCalibrator) (events : List SessionEvent)
    (estimateTokens : ℕ → ℚ) : UsageCalibrator × ℕ :=
  let samples := scanSessionUsages events
  (calibrator.recordSamples estimateTokens samples, samples.length)

end UsageCalibrator

/-! ## What a log reports -/

/-- The sample of one expanded chunk: the input and output of a reported usage, when positive. -/
def reportedSample (chunk : Json) : Option UsageSample :=
  if chunk.get? "type" ≠ some (.str "usage") then none
  else
    match chunk.get? "usage" with
    | none => none
    | some usage =>
      let input := intMember (usage.get? "inputTokens")
      let output := intMember (usage.get? "outputTokens")
      if 0 < input + output then some ⟨input + output, some output⟩ else none

/-- The compact stream of a settlement. -/
def settlementStream (event : SessionEvent) : List Json := (Json.arr? (event.field "stream")).getD []

/-- The samples of one event: those of the expansion of its stream. -/
def reportedBy (event : SessionEvent) : List UsageSample :=
  if event.type = .assistantMessage then
    match expandAssistantStream (settlementStream event) with
    | .ok chunks => chunks.filterMap fun value => reportedSample value.chunk
    | .error _ => []
  else []

/-- The samples that the settlements of a log report, in log order. -/
def reportedSamples (events : List SessionEvent) : List UsageSample := events.flatMap reportedBy

/-- A settlement as its payload declares it: its stream is compact, and its message has none. -/
structure DeclaredSettlement (event : SessionEvent) : Prop where
  stream : ∃ records, event.field "stream" = some (.arr records) ∧
    ∃ chunks, expandAssistantStream records = .ok chunks
  message : event.data.path ["message", "stream"] = none

/-- The scan finds what a log reports, and recording the session records it. -/
structure FindsReported (events : List SessionEvent) : Prop where
  scanned : scanSessionUsages events = reportedSamples events
  recorded : ∀ (calibrator : UsageCalibrator) (estimateTokens : ℕ → ℚ),
    calibrator.recordSession events estimateTokens =
      (calibrator.recordSamples estimateTokens (reportedSamples events),
        (reportedSamples events).length)

/-- A chunk of the expansion that reports a request. -/
def ReportsRequest (event : SessionEvent) : Prop :=
  ∃ records chunks, event.field "stream" = some (.arr records) ∧
    expandAssistantStream records = .ok chunks ∧
    ∃ value ∈ chunks, ∃ usage, value.chunk.get? "type" = some (.str "usage") ∧
      value.chunk.get? "usage" = some usage ∧
      0 < intMember (usage.get? "inputTokens") + intMember (usage.get? "outputTokens")

/-! ## What the scan finds -/

/-- Messages of the declared type hold nothing that the scan looks for. -/
theorem scanSessionUsages_declared {events : List SessionEvent}
    (h : ∀ event ∈ events, event.type = .assistantMessage → DeclaredSettlement event) :
    scanSessionUsages events = [] := by
  unfold scanSessionUsages
  rw [List.flatMap_eq_nil_iff]
  intro event hevent
  by_cases htype : event.type = .assistantMessage
  · simp [htype, (h event hevent htype).message]
  · simp [htype]

theorem reportedSample_eq_none_iff (chunk : Json) :
    reportedSample chunk = none ↔
      ∀ usage, chunk.get? "type" = some (.str "usage") → chunk.get? "usage" = some usage →
        ¬ 0 < intMember (usage.get? "inputTokens") + intMember (usage.get? "outputTokens") := by
  unfold reportedSample
  by_cases htype : chunk.get? "type" = some (.str "usage")
  · cases husage : chunk.get? "usage" with
    | none => simp [htype]
    | some usage => simp [htype]
  · simp [htype]

theorem reportedBy_eq_nil_iff {event : SessionEvent} (htype : event.type = .assistantMessage)
    (h : DeclaredSettlement event) : reportedBy event = [] ↔ ¬ ReportsRequest event := by
  obtain ⟨records, hrecords, chunks, hchunks⟩ := h.stream
  have hstream : settlementStream event = records := by simp [settlementStream, hrecords, Json.arr?]
  have hreports : ReportsRequest event ↔ ∃ value ∈ chunks, ∃ usage,
      value.chunk.get? "type" = some (.str "usage") ∧ value.chunk.get? "usage" = some usage ∧
        0 < intMember (usage.get? "inputTokens") + intMember (usage.get? "outputTokens") := by
    constructor
    · rintro ⟨records', chunks', hrecords', hchunks', hvalue⟩
      rw [hrecords] at hrecords'
      cases hrecords'
      rw [hchunks] at hchunks'
      cases hchunks'
      exact hvalue
    · intro hvalue
      exact ⟨records, chunks, hrecords, hchunks, hvalue⟩
  unfold reportedBy
  rw [if_pos htype, hstream, hchunks, hreports]
  simp only [List.filterMap_eq_nil_iff, reportedSample_eq_none_iff]
  constructor
  · rintro hnone ⟨value, hvalue, usage, hkind, husage, hpos⟩
    exact hnone value hvalue usage hkind husage hpos
  · intro hnone value hvalue usage hkind husage hpos
    exact hnone ⟨value, hvalue, usage, hkind, husage, hpos⟩

/-- The scan finds what a log of declared settlements reports exactly when it reports nothing. -/
theorem scanSessionUsages_iff {events : List SessionEvent}
    (h : ∀ event ∈ events, event.type = .assistantMessage → DeclaredSettlement event) :
    FindsReported events ↔
      ∀ event ∈ events, event.type = .assistantMessage → ¬ ReportsRequest event := by
  have hscan := scanSessionUsages_declared h
  have hempty : reportedSamples events = [] ↔
      ∀ event ∈ events, event.type = .assistantMessage → ¬ ReportsRequest event := by
    unfold reportedSamples
    rw [List.flatMap_eq_nil_iff]
    apply forall₂_congr
    intro event hevent
    by_cases htype : event.type = .assistantMessage
    · rw [reportedBy_eq_nil_iff htype (h event hevent htype)]
      simp [htype]
    · simp [reportedBy, htype]
  rw [← hempty]
  constructor
  · intro hfinds
    rw [← hfinds.scanned, hscan]
  · intro hnil
    have hscanned : scanSessionUsages events = reportedSamples events := by rw [hscan, hnil]
    refine ⟨hscanned, ?_⟩
    intro calibrator estimateTokens
    unfold UsageCalibrator.recordSession
    rw [hscanned]

/-! ## One billed request -/

/-- An event of step 1 of turn 1. -/
def requestAt (type : EventType) (seq : ℕ) (members : List (String × Json)) : SessionEvent where
  type := type
  seq := seq
  time := 0
  data := .obj ([("turn", .nat 1), ("step", .nat 1)] ++ members)
  surfaceOp := if type = .assistantMessage then some (.str "append") else none

/-- One request: a text of two fragments, its usage and its finish, settled as a message. -/
def billedRequest : List SessionEvent :=
  [requestAt .turnStart 0 [], requestAt .stepStart 1 [],
    requestAt .assistantMessage 2 [
      ("message", .obj [("id", .str "m1"), ("role", .str "assistant"),
        ("source", .obj [("kind", .str "model"), ("provider", .str "p"), ("model", .str "q")]),
        ("content", .arr [.obj [("type", .str "text"), ("text", .str "hello")]])]),
      ("stream", .arr [
        .obj [("type", .str "text-chunks"), ("time0", .nat 10), ("index", .nat 0),
          ("dt", .arr [.nat 5]), ("texts", .arr [.str "hel", .str "lo"])],
        .obj [("type", .str "chunk"), ("time", .nat 20), ("chunk", .obj [("type", .str "usage"),
          ("usage", .obj [("inputTokens", .nat 40), ("outputTokens", .nat 2)])])],
        .obj [("type", .str "chunk"), ("time", .nat 20), ("chunk", .obj [("type", .str "finish"),
          ("reason", .obj [("kind", .str "stop")])])]]),
      ("usage", .obj [("inputTokens", .nat 40), ("outputTokens", .nat 2)])],
    requestAt .stepEnd 3 [], requestAt .turnEnd 4 []]

theorem declaredSettlement_billedRequest :
    ∀ event ∈ billedRequest, event.type = .assistantMessage → DeclaredSettlement event := by
  intro event hevent htype
  have hsettled : event = billedRequest[2] := by
    simp only [billedRequest, List.mem_cons, List.not_mem_nil, or_false] at hevent
    rcases hevent with rfl | rfl | rfl | rfl | rfl
    · cases htype
    · cases htype
    · rfl
    · cases htype
    · cases htype
  subst hsettled
  exact ⟨⟨_, rfl, _, rfl⟩, rfl⟩

/-- The accepted log of one billed request reports it once, and its scan is empty. -/
theorem scanSessionUsages_misses :
    (∃ acc, foldSurfaceState billedRequest [] = .ok acc) ∧
      (∃ trace, runTrace billedRequest = .ok trace) ∧
      reportedSamples billedRequest = [⟨42, some 2⟩] ∧ scanSessionUsages billedRequest = [] ∧
      ¬ FindsReported billedRequest := by
  have hreported : reportedSamples billedRequest = [⟨42, some 2⟩] := by decide +kernel
  have hscan : scanSessionUsages billedRequest = [] := by decide +kernel
  refine ⟨⟨_, rfl⟩, ⟨_, rfl⟩, hreported, hscan, ?_⟩
  intro hfinds
  have hsame := hfinds.scanned
  rw [hreported, hscan] at hsame
  cases hsame

/-- The log of one billed request does not meet the condition either. -/
theorem scanSessionUsages_iff_billedRequest :
    FindsReported billedRequest ↔
      ∀ event ∈ billedRequest, event.type = .assistantMessage → ¬ ReportsRequest event :=
  scanSessionUsages_iff declaredSettlement_billedRequest

end TianmaCoder
