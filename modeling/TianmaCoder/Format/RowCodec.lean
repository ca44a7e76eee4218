import TianmaCoder.Format.SeqRanges
import TianmaCoder.Persistence.LogScanner

/-!
# The row codec of format v2

A row is checked, its source ranges are expanded, and its event is emitted if it continues the
events before it. A row that is refused throws, or in the recoverable mode hides what follows it.
The later formats keep this codec for their rows.

## Main definitions

* `ReleasedV2.decodeRow`, `ReleasedV2.encodeSourceEventRanges` — the decoder of a row, and the
  encoder of an event.

## Main results

* `ReleasedV2.emitted_rewrites`.
-/

namespace TianmaCoder

namespace ReleasedV2

open Checked SessionLogScanner

def EVENT_REQUIRED : List String := ["type", "seq", "time", "data"]

def EVENT_OPTIONAL : List String := ["ignorable", "sourceEventSeqs", "surfaceOp"]

def EVENT_KEYS : List String := EVENT_REQUIRED ++ EVENT_OPTIONAL

/-- `Object.keys` of an object. -/
def keysOf : Json → List String
  | .obj members => OrderedMap.keys members
  | _ => []

def jsonRecord (value : Option Json) (label : String) : Except String Json :=
  match value with
  | some (.obj members) => .ok (.obj members)
  | _ => .error s!"{label} must be an object"

/-- The first of some keys, if there is one, is refused. -/
def refuseKey (found : Option String) (message : String → String) : Except String Unit :=
  match found with
  | some key => .error (message key)
  | none => .ok ()

/-- The checks of a row that do not look at its sources. -/
def checkEvent (value : Json) (rowIndex : ℕ) : Except String Unit := do
  let record ← jsonRecord (some value) s!"released v2 row {rowIndex}"
  refuseKey (EVENT_REQUIRED.find? fun key => !record.has key) fun key =>
    s!"released v2 row {rowIndex} lacks required field {key}"
  refuseKey ((keysOf record).find? fun key => key ∉ EVENT_KEYS) fun key =>
    s!"released v2 row {rowIndex} has unexpected field {key}"
  if Json.str? (record.get? "type") = none then
    throw s!"released v2 row {rowIndex} type must be a string"
  if Json.safeInt? (record.get? "time") = none then
    throw s!"released v2 row {rowIndex} time must be a safe integer"
  if record.get? "ignorable" ≠ none ∧ record.get? "ignorable" ≠ some (.bool true) then
    throw s!"released v2 row {rowIndex} ignorable must be true when present"

/-- The numbers of a list of sources. -/
def seqArray (seqs : List ℕ) : Json := .arr (seqs.map .nat)

def decodeEvent (value : Json) (rowIndex : ℕ) : Except String Json := do
  checkEvent value rowIndex
  match value.get? "sourceEventSeqs" with
  | none => pure value
  | some ranges =>
    let seq ← sessionFormatCount ((value.get? "seq").getD .null)
      s!"released v2 row {rowIndex} seq"
    let seqs ← decodeSeqRanges ranges seq
    pure (value.put "sourceEventSeqs" (seqArray seqs))

/-- A row decoder, and the events that it has emitted. -/
structure Rows where
  rowIndex : ℕ
  eventCount : ℕ
  inheritedEventCount : Option ℕ
  issue : Option String
  emitted : List Json

/-- A decoder before its first row. -/
def Rows.start : Rows := ⟨0, 0, none, none, []⟩

section Decoder

variable (text : Json → String) (recovery : Recovery)

/-- A well-formed event is emitted if it continues the events before it. -/
def acceptEvent (s : Rows) (currentRow : ℕ) (event : Json) : Except String Unit × Rows :=
  let seq := (event.get? "seq").getD .null
  if seq ≠ .nat s.eventCount then
    let gap := s!"released v2 row {currentRow} has seq gap (expected {s.eventCount}, got " ++
      text seq ++ ")"
    if recovery = .strict then (throw gap, s)
    else (if isTurnEnd event then throw gap else pure (), { s with issue := some gap })
  else
    let counted := { s with eventCount := s.eventCount + 1 }
    if event.get? "type" = some (.str "session/end-seed") then
      match jsonRecord (event.get? "data") s!"session/end-seed {s.eventCount} data" with
      | .error error => (throw error, counted)
      | .ok data => (pure (), { counted with
          inheritedEventCount := if data.get? "inherited" = some (.bool true) then some s.eventCount
            else s.inheritedEventCount
          emitted := s.emitted ++ [event] })
    else (pure (), { counted with emitted := s.emitted ++ [event] })

/-- A row, and what the decoder is left as, which may change before it throws. -/
def decodeRow (s : Rows) (value : Json) : Except String Unit × Rows :=
  let next := { s with rowIndex := s.rowIndex + 1 }
  match decodeEvent value s.rowIndex with
  | .error current =>
    if recovery = .strict then (throw current, next)
    else (pure (), { next with issue := s.issue.or (some current) })
  | .ok event =>
    match s.issue with
    | some issue => (if isTurnEnd event then throw issue else pure (), next)
    | none => acceptEvent text recovery next s.rowIndex event

/-- The rows of a log, up to the first that throws. -/
def decodeRows (s : Rows) : List Json → Rows
  | [] => s
  | row :: rest =>
    match decodeRow text recovery s row with
    | (.ok (), next) => decodeRows next rest
    | (.error _, next) => next

/-- A row that must not throw. -/
def readRow (s : Rows) (value : Json) : Except String Rows :=
  (decodeRow text recovery s value).1.map fun _ => (decodeRow text recovery s value).2

end Decoder

/-- The inherited cut of the rows. -/
def finishRows (isSeeded : Bool) (s : Rows) : Except String ℕ := do
  if isSeeded = true ∧ s.inheritedEventCount = none then
    throw "released v2 seeded Session lacks an inherited end-seed marker"
  if isSeeded = false ∧ s.inheritedEventCount ≠ none then
    throw "released v2 unseeded Session contains an inherited end-seed marker"
  return s.inheritedEventCount.getD 0

/-- The sources of an event, at their declared type. -/
def seqsOf (value : Json) : List ℕ :=
  ((Json.arr? (some value)).getD []).filterMap fun seq => Json.count? (some seq)

def encodeSourceEventRanges (event : Json) : Json :=
  match event.get? "sourceEventSeqs" with
  | none => event
  | some seqs => event.put "sourceEventSeqs" (.arr (encodeSeqRanges (seqsOf seqs)))

/-! ## A row that is written again -/

variable {value event ranges : Json} {rowIndex : ℕ} {recovery : Recovery} {text : Json → String}

theorem seqsOf_seqArray {seqs : List ℕ} (h : ∀ v ∈ seqs, v ≤ Json.maxSafeInteger) :
    seqsOf (seqArray seqs) = seqs := by
  induction seqs with
  | nil => rfl
  | cons v seqs ih =>
    have hrest := ih fun w hw => h w (List.mem_cons_of_mem v hw)
    have hv := h v List.mem_cons_self
    simp only [seqsOf, seqArray, Json.arr?, Option.getD_some] at hrest ⊢
    rw [List.map_cons, List.filterMap_cons, Json.count?_nat, if_pos hv]
    exact congrArg _ hrest

theorem refuseKey_ok_iff (found : Option String) (message : String → String) (u : Unit) :
    refuseKey found message = .ok u ↔ found = none := by
  cases found <;> simp [refuseKey]

/-- What a row must be, whatever its place. -/
structure WellFormed (value : Json) : Prop where
  object : value.isObject = true
  required : ∀ key ∈ EVENT_REQUIRED, value.has key = true
  expected : ∀ key ∈ keysOf value, key ∈ EVENT_KEYS
  type_str : Json.str? (value.get? "type") ≠ none
  time_safe : Json.safeInt? (value.get? "time") ≠ none
  ignorable : value.get? "ignorable" = none ∨ value.get? "ignorable" = some (.bool true)

theorem checkEvent_ok_iff : checkEvent value rowIndex = .ok () ↔ WellFormed value := by
  cases value with
  | obj members =>
    simp only [checkEvent, jsonRecord, ok_bind, bind_ok_iff, refuseKey_ok_iff, throw_eq,
      error_bind, guard_ok_iff, pure_eq, exists_const, List.find?_eq_none]
    constructor
    · rintro ⟨hrequired, hexpected, htype, htime, hignorable, -⟩
      refine ⟨rfl, by simpa using hrequired, by simpa using hexpected, htype, htime, ?_⟩
      by_contra hbad
      rw [not_or] at hbad
      exact hignorable hbad
    · rintro ⟨-, hrequired, hexpected, htype, htime, hignorable⟩
      refine ⟨by simpa using hrequired, by simpa using hexpected, htype, htime, ?_, trivial⟩
      rw [← not_or]
      exact not_not_intro hignorable
  | _ =>
    refine ⟨fun h => ?_, fun h => ?_⟩
    · cases h
    · cases h.object

theorem put_put (value v w : Json) (key : String) :
    (value.put key v).put key w = value.put key w := by
  cases value with
  | obj members => exact congrArg Json.obj (OrderedMap.set_set key v w members)
  | _ => simp [Json.put, OrderedMap.set]

theorem sessionFormatCount_label {label : String} {n : ℕ}
    (h : sessionFormatCount value label = .ok n) (other : String) :
    sessionFormatCount value other = .ok n := by
  unfold sessionFormatCount at h ⊢
  split at h
  · exact h
  · cases h

/-- The stored form of the sources does not matter to the checks. -/
theorem WellFormed.put (h : WellFormed value) (hsome : value.has "sourceEventSeqs" = true)
    (ranges : Json) : WellFormed (value.put "sourceEventSeqs" ranges) := by
  cases value with
  | obj members =>
    have hkeys : keysOf ((Json.obj members).put "sourceEventSeqs" ranges) =
        keysOf (.obj members) := by
      rw [Json.put, keysOf, keysOf, OrderedMap.keys_set, if_pos]
      exact (OrderedMap.mem_keys_iff _ _).mpr hsome
    refine ⟨rfl, fun key hkey => ?_, by rw [hkeys]; exact h.expected, ?_, ?_, ?_⟩
    · rw [Json.has, Json.get?_put]
      split
      · rfl
      · exact h.required key hkey
    · rw [Json.get?_put, if_neg (by decide)]
      exact h.type_str
    · rw [Json.get?_put, if_neg (by decide)]
      exact h.time_safe
    · rw [Json.get?_put, if_neg (by decide)]
      exact h.ignorable
  | _ => cases h.object

/-- A decoded event, written again, is decoded to itself in any place. -/
theorem decodeEvent_encode (h : decodeEvent value rowIndex = .ok event) (place : ℕ) :
    decodeEvent (encodeSourceEventRanges event) place = .ok event := by
  rw [decodeEvent, bind_ok_iff] at h
  obtain ⟨_, hchecked, h⟩ := h
  have hwell := checkEvent_ok_iff.mp hchecked
  cases hsources : value.get? "sourceEventSeqs" with
  | none =>
    rw [hsources] at h
    cases h
    rw [encodeSourceEventRanges, hsources, decodeEvent, checkEvent_ok_iff.mpr hwell, ok_bind,
      hsources]
    rfl
  | some ranges =>
    simp only [hsources, bind_ok_iff, pure_eq, Except.ok.injEq] at h
    obtain ⟨seq, hseq, seqs, hseqs, rfl⟩ := h
    obtain ⟨hnodup, hsafe, hearlier⟩ := of_decodeSeqRanges hseqs
    have hhas : value.has "sourceEventSeqs" = true := by rw [Json.has, hsources]; rfl
    have hcodec := decodeSeqRanges_encodeSeqRanges hnodup hsafe hearlier
    rw [encodeSourceEventRanges, Json.get?_put_self]
    simp only [seqsOf_seqArray hsafe, put_put]
    rw [decodeEvent, checkEvent_ok_iff.mpr (hwell.put hhas _), ok_bind, Json.get?_put_self]
    have hplace : (value.put "sourceEventSeqs" (.arr (encodeSeqRanges seqs))).get? "seq" =
        value.get? "seq" := by rw [Json.get?_put, if_neg (by decide)]
    simp only [hplace, sessionFormatCount_label hseq, ok_bind, hcodec, put_put, pure_eq]

/-! ## A log that is written again -/

variable {s : Rows}

/-- A decoder that has read what another has emitted. -/
def Rows.reread (s : Rows) : Rows :=
  ⟨s.emitted.length, s.emitted.length, s.inheritedEventCount, none, s.emitted⟩

/-- A row emits nothing and leaves the cut, or it emits its event, and so does a strict decoder that
has read what was emitted. -/
def Emits (text : Json → String) (s : Rows) (event : Json) (out : Except String Unit × Rows) :
    Prop :=
  (out.2.emitted = s.emitted ∧ out.2.inheritedEventCount = s.inheritedEventCount ∧
    (out.1 = .ok () → out.2.eventCount = s.eventCount)) ∨
  out.2.emitted = s.emitted ++ [event] ∧ out.2.eventCount = s.eventCount + 1 ∧
    event.get? "seq" = some (.nat s.eventCount) ∧
    ∀ row, acceptEvent text .strict { s.reread with rowIndex := s.emitted.length + 1 } row event =
      (.ok (), out.2.reread)

theorem acceptEvent_emits (hcount : s.eventCount = s.emitted.length) (row : ℕ) (event : Json) :
    Emits text s event (acceptEvent text recovery s row event) := by
  obtain ⟨rowIndex, eventCount, inheritedEventCount, issue, emitted⟩ := s
  obtain rfl : eventCount = emitted.length := hcount
  by_cases hseq : (event.get? "seq").getD .null = .nat emitted.length
  · have hsome : event.get? "seq" = some (.nat emitted.length) := by
      cases hget : event.get? "seq" with
      | none =>
        rw [hget] at hseq
        cases hseq
      | some value => rw [← hseq, hget, Option.getD_some]
    rw [acceptEvent, if_neg (not_not_intro hseq)]
    by_cases hseed : event.get? "type" = some (.str "session/end-seed")
    · rw [if_pos hseed]
      cases hdata : event.get? "data" with
      | none => exact .inl ⟨rfl, rfl, fun h => by cases h⟩
      | some data =>
        cases data with
        | obj members =>
          refine .inr ⟨rfl, rfl, hsome, fun _ => ?_⟩
          simp [acceptEvent, Rows.reread, hseq, hseed, hdata, jsonRecord]
        | _ => exact .inl ⟨rfl, rfl, fun h => by cases h⟩
    · rw [if_neg hseed]
      refine .inr ⟨rfl, rfl, hsome, fun _ => ?_⟩
      simp [acceptEvent, Rows.reread, hseq, hseed]
  · rw [acceptEvent, if_pos hseq]
    by_cases hstrict : recovery = .strict
    · rw [if_pos hstrict]
      exact .inl ⟨rfl, rfl, fun _ => rfl⟩
    · rw [if_neg hstrict]
      exact .inl ⟨rfl, rfl, fun _ => rfl⟩

/-- The emitted events are numbered from zero on, and are emitted again from their stored forms. -/
structure Rewritten (text : Json → String) (s : Rows) : Prop where
  dense : s.emitted.map (·.get? "seq") = (List.range s.emitted.length).map fun n => some (.nat n)
  again : (s.emitted.map encodeSourceEventRanges).foldlM (readRow text .strict) Rows.start =
    .ok s.reread

/-- A row that emits nothing changes nothing here. -/
theorem Rewritten.congr (h : Rewritten text s) {next : Rows} (hemitted : next.emitted = s.emitted)
    (hcut : next.inheritedEventCount = s.inheritedEventCount) : Rewritten text next := by
  obtain ⟨hdense, hagain⟩ := h
  have hreread : next.reread = s.reread := by rw [Rows.reread, Rows.reread, hemitted, hcut]
  exact ⟨by rwa [hemitted], by rwa [hemitted, hreread]⟩

theorem Rewritten.decodeRow (h : Rewritten text s) (hcount : s.eventCount = s.emitted.length)
    (value : Json) {out : Except String Unit × Rows}
    (hout : ReleasedV2.decodeRow text recovery s value = out) :
    Rewritten text out.2 ∧ (out.1 = .ok () → out.2.eventCount = out.2.emitted.length) := by
  rw [ReleasedV2.decodeRow] at hout
  cases hevent : decodeEvent value s.rowIndex with
  | error current =>
    simp only [hevent] at hout
    by_cases hstrict : recovery = .strict
    · rw [if_pos hstrict] at hout
      subst hout
      exact ⟨h.congr rfl rfl, fun hok => by cases hok⟩
    · rw [if_neg hstrict] at hout
      subst hout
      exact ⟨h.congr rfl rfl, fun _ => hcount⟩
  | ok event =>
    simp only [hevent] at hout
    cases hissue : s.issue with
    | some issue =>
      simp only [hissue] at hout
      subst hout
      exact ⟨h.congr rfl rfl, fun _ => hcount⟩
    | none =>
      simp only [hissue] at hout
      have hemits : Emits text _ event (acceptEvent text recovery _ s.rowIndex event) :=
        acceptEvent_emits (s := { s with rowIndex := s.rowIndex + 1, issue := none }) hcount
          s.rowIndex event
      rw [hout] at hemits
      rcases hemits with ⟨hsame, hcut, hkept⟩ | ⟨hmore, hnext, hseq, hagain⟩
      · exact ⟨h.congr hsame hcut, fun hok => by rw [hkept hok, hsame]; exact hcount⟩
      · have hlength : out.2.emitted.length = s.emitted.length + 1 := by
          rw [hmore, List.length_append, List.length_singleton]
        refine ⟨⟨?_, ?_⟩, fun _ => by rw [hnext, hlength, ← hcount]⟩
        · rw [hlength, hmore, List.map_append, List.range_succ, List.map_append, h.dense,
            List.map_singleton, List.map_singleton, hseq, ← hcount]
        · have hrow : ReleasedV2.decodeRow text .strict s.reread (encodeSourceEventRanges event) =
              (.ok (), out.2.reread) := by
            rw [ReleasedV2.decodeRow, decodeEvent_encode hevent]
            exact hagain _
          rw [hmore, List.map_append, List.map_singleton, foldlM_snoc, h.again, ok_bind, readRow,
            hrow]
          rfl

/-- What is emitted of the rows of a log is numbered from zero on; written as a log, it is read
without a refusal, and emitted with the same inherited cut. -/
theorem emitted_rewrites (text : Json → String) (recovery : Recovery) (rows : List Json) :
    let s := decodeRows text recovery Rows.start rows
    s.emitted.map (·.get? "seq") = (List.range s.emitted.length).map (fun n => some (.nat n)) ∧
      ∃ t, (s.emitted.map encodeSourceEventRanges).foldlM (readRow text .strict) Rows.start =
          .ok t ∧ t.emitted = s.emitted ∧
        ∀ isSeeded, finishRows isSeeded t = finishRows isSeeded s := by
  have hrun : ∀ s : Rows, Rewritten text s → s.eventCount = s.emitted.length →
      Rewritten text (decodeRows text recovery s rows) := by
    induction rows with
    | nil => exact fun _ h _ => h
    | cons row rest ih =>
      intro s h hcount
      rw [decodeRows]
      generalize hout : decodeRow text recovery s row = out
      obtain ⟨hnext, hkept⟩ := h.decodeRow hcount row hout
      obtain ⟨result, next⟩ := out
      cases result with
      | error error => exact hnext
      | ok _ => exact ih next hnext (hkept rfl)
  have h := hrun Rows.start ⟨rfl, rfl⟩ rfl
  exact ⟨h.dense, _, h.again, rfl, fun _ => rfl⟩

end ReleasedV2

end TianmaCoder
