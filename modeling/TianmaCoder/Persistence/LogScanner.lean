import TianmaCoder.Lib.Checked
import TianmaCoder.Lib.Json
import TianmaCoder.Lib.Records

/-!
# The incremental scanner of a session log

A log is read in chunks of bytes. The scanner cuts them into records at newlines, keeping the
fragments of a record that crosses chunks, and hands each complete record to the decoder of the
format. A record that cannot be read is refused, or in the recoverable mode suppresses what
follows until a turn ends.

The text decoding, the checks of a parsed header and the row decoder are parameters: the scanner
never looks inside them.

## Main definitions

* `SessionLogScanner.write`, `SessionLogScanner.consumeEventLine`, `SessionLogScanner.finish` —
  the scanner.
* `SessionLogScanner.scan` — a whole log, in chunks.
* `SessionLogScanner.feed` — the same cut of all the bytes at once.

## Main results

* `SessionLogScanner.scan_chunks`.
-/

namespace TianmaCoder

open Checked

namespace SessionLogScanner

/-- How a scan is refused. An unsupported format is told apart from other errors. -/
inductive Refusal
  | error (message : String)
  | unsupported (message : String)
  deriving DecidableEq, Repr

/-- `error.message` of a refusal. -/
def Refusal.message : Refusal → String
  | .error message | .unsupported message => message

/-- Whether a record that cannot be read is refused or suppresses what follows it. -/
inductive Recovery
  | strict
  | recoverable
  deriving DecidableEq, Repr

/-- What `restore.finish()` returns. -/
structure Artifact (Event : Type) where
  inheritedEventCount : ℕ
  events : List Event
  deriving DecidableEq, Repr

/-- The format that a log is read with: `JSON.parse` of the text of a record, the checks of a
parsed header, the admission of a row, the row decoder, which may change before it throws, and
the checks of the whole. -/
structure Format (Meta Event σ : Type) where
  parse : List UInt8 → Option Json
  header : Json → Except Refusal (Meta × σ)
  assertRowAdmission : Json → Except Refusal Unit
  decodeRow : σ → Json → Except Refusal Unit × σ
  finish : σ → Except Refusal (Artifact Event)
  assertRelationships : Artifact Event → Except Refusal Unit

variable {Meta Event σ : Type}

/-- The fields of the scanner. -/
structure Scanner (Meta σ : Type) where
  header : Meta
  restore : σ
  recovery : Recovery
  eventCount : ℕ
  fragments : List (List UInt8)
  fragmentBytes : ℕ
  inputBytes : ℕ
  committedBytes : ℕ
  eventLine : ℕ
  issue : Option Refusal
  finished : Bool
  deriving DecidableEq, Repr

structure SessionLogScan (Meta Event : Type) where
  header : Meta
  inheritedEventCount : ℕ
  events : List Event
  committedBytes : ℕ
  deriving DecidableEq, Repr

def newline : UInt8 := 0x0A

section Scanner

variable (format : Format Meta Event σ)

/-- Parse one complete header record. -/
def parseHeaderRecord (record : List UInt8) : Except Refusal (Meta × σ) :=
  if record = [] ∨ record.getLast? ≠ some newline ∨
      record.idxOf newline ≠ record.length - 1 then
    throw (.error "empty or header-less session log")
  else
    match format.parse record.dropLast with
    | none => throw (.error "corrupt session log: header line is not valid JSON")
    | some (.obj members) => format.header (.obj members)
    | some _ => throw (.error "corrupt session log: first line is not a JSON object")

/-- The constructor, from exactly one newline-terminated header record. -/
def create (headerRecord : List UInt8) (recovery : Recovery) :
    Except Refusal (Scanner Meta σ) := do
  let parsed ← parseHeaderRecord format headerRecord
  pure {
    header := parsed.1
    restore := parsed.2
    recovery := recovery
    eventCount := 0
    fragments := []
    fragmentBytes := 0
    inputBytes := headerRecord.length
    committedBytes := headerRecord.length
    eventLine := 0
    issue := none
    finished := false }

/-- `decoded.type === 'turn/end'` of an object. -/
def isTurnEnd (decoded : Json) : Bool := decoded.get? "type" == some (.str "turn/end")

/-- A row that was admitted is decoded, unless an earlier issue suppresses it. -/
def decodeRow (s : Scanner Meta σ) (decoded : Json) (endByte : ℕ) :
    Except Refusal (Scanner Meta σ) :=
  match s.issue with
  | some issue => if isTurnEnd decoded then throw issue else pure s
  | none =>
    match format.decodeRow s.restore decoded with
    | (.ok (), restore) =>
      pure { s with
        restore := restore, eventCount := s.eventCount + 1, committedBytes := endByte }
    | (.error error, restore) =>
      let detail := error.message
      let issue := Refusal.error
        s!"corrupt session log: invalid committed event at line {s.eventLine}: {detail}"
      if s.recovery = .strict ∨ isTurnEnd decoded = true then throw issue
      else pure { s with restore := restore, issue := some issue }

/-- Decode one complete event row and update the contiguous prefix. -/
def consumeEventLine (s : Scanner Meta σ) (line : List UInt8) (endByte : ℕ) :
    Except Refusal (Scanner Meta σ) :=
  let s := { s with eventLine := s.eventLine + 1 }
  match format.parse line with
  | none =>
    let issue := Refusal.error
      s!"corrupt session log: unparsable committed event at line {s.eventLine}"
    if s.recovery = .strict then throw issue
    else pure { s with issue := s.issue.or (some issue) }
  | some decoded => do
      format.assertRowAdmission decoded
      decodeRow format s decoded endByte

/-- `Buffer.concat` with a total length: cut off or padded with zeros. -/
def concat (buffers : List (List UInt8)) (totalLength : ℕ) : List UInt8 :=
  buffers.flatten.take totalLength ++ List.replicate (totalLength - buffers.flatten.length) 0

/-- `chunk.indexOf(0x0A, start)`. -/
def indexOfNewline (chunk : List UInt8) (start : ℕ) : Option ℕ :=
  if newline ∈ chunk.drop start then some (start + (chunk.drop start).idxOf newline) else none

theorem indexOfNewline_lt {chunk : List UInt8} {start found : ℕ}
    (h : indexOfNewline chunk start = some found) : start ≤ found ∧ found < chunk.length := by
  unfold indexOfNewline at h
  split at h
  · rename_i hmem
    cases h
    have hlt := List.idxOf_lt_length_of_mem hmem
    rw [List.length_drop] at hlt
    omega
  · cases h

/-- The line that a newline ends: the fragment before it behind the fragments kept. -/
def joinFragments (s : Scanner Meta σ) (fragment : List UInt8) : List UInt8 × Scanner Meta σ :=
  if s.fragments = [] then (fragment, s)
  else
    let fragments := if fragment = [] then s.fragments else s.fragments ++ [fragment]
    (concat fragments (s.fragmentBytes + fragment.length),
      { s with fragments := [], fragmentBytes := 0 })

/-- The bytes behind the last newline are kept. -/
def keepFragment (s : Scanner Meta σ) (fragment : List UInt8) : Scanner Meta σ :=
  if fragment = [] then s
  else { s with
    fragments := s.fragments ++ [fragment], fragmentBytes := s.fragmentBytes + fragment.length }

/-- The loop of `write` from `lineStart` on. -/
def writeFrom (chunk : List UInt8) (chunkStart lineStart : ℕ) (s : Scanner Meta σ) :
    Except Refusal (Scanner Meta σ) :=
  match h : indexOfNewline chunk lineStart with
  | none => pure (keepFragment s (chunk.drop lineStart))
  | some found =>
    let fragment := (chunk.take found).drop lineStart
    let joined := joinFragments s fragment
    consumeEventLine format joined.2 joined.1 (chunkStart + found + 1) >>=
      writeFrom chunk chunkStart (found + 1)
termination_by chunk.length - lineStart
decreasing_by
  have := indexOfNewline_lt h
  omega

/-- Consume the next chunk, keeping only an incomplete final record. -/
def write (s : Scanner Meta σ) (chunk : List UInt8) : Except Refusal (Scanner Meta σ) :=
  if s.finished then throw (.error "cannot write to a finished session log scanner")
  else
    let chunkStart := s.inputBytes
    writeFrom format chunk chunkStart 0 { s with inputBytes := s.inputBytes + chunk.length }

/-- Finish scanning, ignoring a final record without a newline. -/
def finish (s : Scanner Meta σ) : Except Refusal (SessionLogScan Meta Event) := do
  let s := { s with finished := true }
  let artifact ← format.finish s.restore
  format.assertRelationships artifact
  pure {
    header := s.header
    inheritedEventCount := artifact.inheritedEventCount
    events := artifact.events
    committedBytes := s.committedBytes }

/-- A log whose bytes arrive in chunks: its header record, then the writes in order. -/
def scan (recovery : Recovery) (headerRecord : List UInt8) (chunks : List (List UInt8)) :
    Except Refusal (SessionLogScan Meta Event) := do
  let s ← create format headerRecord recovery
  let s ← chunks.foldlM (write format) s
  finish format s

end Scanner

/-! ### The cut of all the bytes -/

section Whole

variable (format : Format Meta Event σ)

/-- Consume complete records, the first of which begins at `start`. -/
def consumeRecords (start : ℕ) : List (List UInt8) → Scanner Meta σ →
    Except Refusal (Scanner Meta σ)
  | [], s => pure s
  | line :: rest, s =>
    consumeEventLine format s line (start + line.length + 1) >>=
      consumeRecords (start + line.length + 1) rest

/-- The scanner without what it keeps of an incomplete record. -/
def bare (s : Scanner Meta σ) : Scanner Meta σ :=
  { s with fragments := [], fragmentBytes := 0, inputBytes := 0 }

/-- The scanner after all the bytes behind the header, cut at once. -/
def feed (s : Scanner Meta σ) (bytes : List UInt8) : Except Refusal (Scanner Meta σ) :=
  consumeRecords format s.inputBytes (Records.complete newline bytes) (bare s)

variable {format}

theorem consumeRecords_append (start : ℕ) (xs ys : List (List UInt8)) (s : Scanner Meta σ) :
    consumeRecords format start (xs ++ ys) s
      = consumeRecords format start xs s >>=
        consumeRecords format (start + (Records.join newline xs).length) ys := by
  induction xs generalizing start s with
  | nil => rfl
  | cons line rest ih =>
    have hlength : start + (Records.join newline (line :: rest)).length
        = start + line.length + 1 + (Records.join newline rest).length := by
      rw [Records.join_cons, List.length_append, List.length_cons]
      omega
    rw [List.cons_append, consumeRecords, consumeRecords, hlength]
    cases consumeEventLine format s line (start + line.length + 1) with
    | error error => rfl
    | ok t => exact ih (start + line.length + 1) t

variable {s t : Scanner Meta σ}

/-- A record is counted where it is accepted, and moves the committed prefix to its end. -/
theorem consumeEventLine_progress {line : List UInt8} {endByte : ℕ}
    (h : consumeEventLine format s line endByte = .ok t) :
    t.finished = s.finished ∧
      ((t.eventCount = s.eventCount ∧ t.committedBytes = s.committedBytes) ∨
        (t.eventCount = s.eventCount + 1 ∧ t.committedBytes = endByte)) := by
  unfold consumeEventLine at h
  cases hparse : format.parse line with
  | none =>
    simp only [hparse, throw_eq, guard_ok_iff, pure_eq, Except.ok.injEq] at h
    rw [← h.2]
    exact ⟨rfl, .inl ⟨rfl, rfl⟩⟩
  | some decoded =>
    simp only [hparse, bind_ok_iff] at h
    obtain ⟨_, _, h⟩ := h
    unfold decodeRow at h
    cases hissue : s.issue with
    | some issue =>
      simp only [hissue] at h
      by_cases hend : isTurnEnd decoded = true
      · rw [if_pos hend] at h
        cases h
      · rw [if_neg hend] at h
        cases h
        exact ⟨rfl, .inl ⟨rfl, rfl⟩⟩
    | none =>
      simp only [hissue] at h
      cases hdecode : format.decodeRow s.restore decoded with
      | mk result restore =>
        simp only [hdecode] at h
        cases result with
        | ok u =>
          cases h
          exact ⟨rfl, .inr ⟨rfl, rfl⟩⟩
        | error error =>
          simp only [throw_eq, guard_ok_iff, pure_eq, Except.ok.injEq] at h
          rw [← h.2]
          exact ⟨rfl, .inl ⟨rfl, rfl⟩⟩

variable (format) in
/-- A record does not read or change what is kept of another. -/
theorem consumeEventLine_frame (s : Scanner Meta σ) (line : List UInt8) (endByte : ℕ)
    (fragments : List (List UInt8)) (fragmentBytes inputBytes : ℕ) :
    consumeEventLine format { s with
        fragments := fragments, fragmentBytes := fragmentBytes, inputBytes := inputBytes } line
        endByte
      = (consumeEventLine format s line endByte).map fun t => { t with
        fragments := fragments, fragmentBytes := fragmentBytes, inputBytes := inputBytes } := by
  unfold consumeEventLine
  cases hparse : format.parse line with
  | none =>
    by_cases hstrict : s.recovery = .strict
    · simp only [hstrict, ↓reduceIte]
      rfl
    · simp only [hstrict, ↓reduceIte]
      rfl
  | some decoded =>
    simp only []
    cases hadmission : format.assertRowAdmission decoded with
    | error error => rfl
    | ok u =>
      simp only [ok_bind]
      unfold decodeRow
      cases hissue : s.issue with
      | some issue =>
        by_cases hend : isTurnEnd decoded = true
        · simp only [hend, ↓reduceIte]
          rfl
        · simp only [hend]
          rfl
      | none =>
        simp only []
        cases hdecode : format.decodeRow s.restore decoded with
        | mk result restore =>
          cases result with
          | ok u => rfl
          | error error =>
            by_cases hrefused : s.recovery = .strict ∨ isTurnEnd decoded = true
            · simp only [hrefused, ↓reduceIte]
              rfl
            · simp only [hrefused, ↓reduceIte]
              rfl

/-- The bytes kept of an incomplete record. -/
def pending (s : Scanner Meta σ) : List UInt8 := s.fragments.flatten

/-- What is kept is counted and holds no newline. -/
structure Sound (s : Scanner Meta σ) : Prop where
  fragmentBytes : s.fragmentBytes = (pending s).length
  noNewline : newline ∉ pending s

/-- Two scans that are refused alike, or leave scanners that differ in how they keep `kept`. -/
def Agree (kept : List UInt8) (inputBytes : ℕ) :
    Except Refusal (Scanner Meta σ) → Except Refusal (Scanner Meta σ) → Prop
  | .ok s, .ok t =>
    bare s = t ∧ pending s = kept ∧ Sound s ∧ s.inputBytes = inputBytes ∧ s.finished = false
  | .error a, .error b => a = b
  | _, _ => False

theorem concat_flatten (buffers : List (List UInt8)) :
    concat buffers buffers.flatten.length = buffers.flatten := by
  rw [concat, List.take_length, Nat.sub_self, List.replicate_zero, List.append_nil]

theorem joinFragments_eq (h : Sound s) (fragment : List UInt8) :
    joinFragments s fragment
      = (pending s ++ fragment, { s with fragments := [], fragmentBytes := 0 }) := by
  unfold joinFragments
  by_cases hnone : s.fragments = []
  · have hpending : pending s = [] := by rw [pending, hnone]; rfl
    have hzero : s.fragmentBytes = 0 := by rw [h.fragmentBytes, hpending]; rfl
    rw [if_pos hnone, hpending, List.nil_append, ← hnone, ← hzero]
  · rw [if_neg hnone]
    by_cases hempty : fragment = []
    · subst hempty
      simp only [↓reduceIte, List.length_nil, Nat.add_zero, List.append_nil, h.fragmentBytes]
      rw [pending, concat_flatten]
    · have hflatten : (s.fragments ++ [fragment]).flatten = pending s ++ fragment := by
        rw [List.flatten_append, List.flatten_singleton, pending]
      have hlength : s.fragmentBytes + fragment.length
          = (s.fragments ++ [fragment]).flatten.length := by
        rw [hflatten, List.length_append, h.fragmentBytes]
      simp only [hempty, ↓reduceIte, hlength]
      rw [concat_flatten, hflatten]

theorem keepFragment_agree {fragment : List UInt8} (h : Sound s) (hfragment : newline ∉ fragment)
    (hopen : s.finished = false) :
    Agree (pending s ++ fragment) s.inputBytes
      (.ok (keepFragment s fragment) : Except Refusal (Scanner Meta σ)) (.ok (bare s)) := by
  unfold keepFragment
  by_cases hempty : fragment = []
  · rw [if_pos hempty, hempty, List.append_nil]
    exact ⟨rfl, rfl, h, rfl, hopen⟩
  · rw [if_neg hempty]
    have hpending : pending { s with
        fragments := s.fragments ++ [fragment]
        fragmentBytes := s.fragmentBytes + fragment.length } = pending s ++ fragment := by
      rw [pending, List.flatten_append, List.flatten_singleton, pending]
    refine ⟨rfl, hpending, ⟨?_, ?_⟩, rfl, hopen⟩
    · rw [hpending, List.length_append, ← h.fragmentBytes]
    · rw [hpending]
      intro hmem
      cases List.mem_append.mp hmem with
      | inl hold => exact h.noNewline hold
      | inr hnew => exact hfragment hnew

/-- The next newline cuts the chunk. -/
theorem indexOfNewline_cut {chunk : List UInt8} {start found : ℕ}
    (h : indexOfNewline chunk start = some found) :
    chunk.drop start = (chunk.take found).drop start ++ newline :: chunk.drop (found + 1) ∧
      newline ∉ (chunk.take found).drop start := by
  unfold indexOfNewline at h
  split at h
  · rename_i hmem
    cases h
    cases Records.cases_record newline (chunk.drop start) with
    | inl hnot => exact absurd hmem hnot
    | inr hrecord =>
      obtain ⟨line, rest, hcut, hline⟩ := hrecord
      have hindex : (chunk.drop start).idxOf newline = line.length := by
        rw [hcut, List.idxOf_append_of_notMem hline, List.idxOf_cons_self, Nat.add_zero]
      have htake : (chunk.take (start + line.length)).drop start = line := by
        rw [List.drop_take, Nat.add_sub_cancel_left, hcut, List.take_left]
      have hdrop : chunk.drop (start + line.length + 1) = rest := by
        rw [Nat.add_assoc, ← List.drop_drop, hcut, List.append_cons, List.drop_left' (by simp)]
      rw [hindex, htake, hdrop]
      exact ⟨hcut, hline⟩
  · cases h

variable (format) in
theorem writeFrom_agree (chunk : List UInt8) {chunkStart lineStart : ℕ} (h : Sound s)
    (hopen : s.finished = false) {start : ℕ}
    (hstart : start + (pending s).length = chunkStart + lineStart) :
    Agree (Records.tail newline (pending s ++ chunk.drop lineStart)) s.inputBytes
      (writeFrom format chunk chunkStart lineStart s)
      (consumeRecords format start
        (Records.complete newline (pending s ++ chunk.drop lineStart)) (bare s)) := by
  induction hn : chunk.length - lineStart using Nat.strongRecOn generalizing lineStart s start with
  | _ n ih =>
    rw [writeFrom]
    split
    · rename_i hfound
      have hnone : newline ∉ chunk.drop lineStart := by
        intro hmem
        rw [indexOfNewline, if_pos hmem] at hfound
        cases hfound
      have hnot : newline ∉ pending s ++ chunk.drop lineStart := by
        intro hmem
        cases List.mem_append.mp hmem with
        | inl hold => exact h.noNewline hold
        | inr hnew => exact hnone hnew
      rw [Records.complete_of_not_mem hnot, Records.tail_of_not_mem hnot]
      exact keepFragment_agree h hnone hopen
    · rename_i found hfound
      have ⟨hle, hlt⟩ := indexOfNewline_lt hfound
      have ⟨hcut, hfragment⟩ := indexOfNewline_cut hfound
      have hline : newline ∉ pending s ++ (chunk.take found).drop lineStart := by
        intro hmem
        cases List.mem_append.mp hmem with
        | inl hold => exact h.noNewline hold
        | inr hnew => exact hfragment hnew
      have hlength : ((chunk.take found).drop lineStart).length = found - lineStart := by
        rw [List.length_drop, List.length_take, Nat.min_eq_left (Nat.le_of_lt hlt)]
      have hend : start + (pending s ++ (chunk.take found).drop lineStart).length + 1
          = chunkStart + found + 1 := by
        rw [List.length_append, hlength]
        omega
      rw [hcut, ← List.append_assoc, Records.complete_record hline, Records.tail_record hline,
        consumeRecords, hend]
      dsimp only
      rw [joinFragments_eq h]
      -- the record is consumed alike with and without the bytes kept
      have hframe := consumeEventLine_frame format s
        (pending s ++ (chunk.take found).drop lineStart) (chunkStart + found + 1) [] 0
      have hkept := hframe s.inputBytes
      have hbare := hframe 0
      change consumeEventLine format { s with fragments := [], fragmentBytes := 0 } _ _ = _ at hkept
      change consumeEventLine format (bare s) _ _ = _ at hbare
      rw [hkept, hbare]
      cases hconsume : consumeEventLine format s
          (pending s ++ (chunk.take found).drop lineStart) (chunkStart + found + 1) with
      | error error => rfl
      | ok t =>
        have hfinished : t.finished = false :=
          (consumeEventLine_progress hconsume).1.trans hopen
        have hlength : chunk.length - (found + 1) < n := by omega
        have hsound : Sound
            { t with fragments := [], fragmentBytes := 0, inputBytes := s.inputBytes } :=
          ⟨rfl, List.not_mem_nil⟩
        have hnext : chunkStart + found + 1 + (pending
            { t with fragments := [], fragmentBytes := 0, inputBytes := s.inputBytes }).length
            = chunkStart + (found + 1) := rfl
        exact ih _ hlength hsound hfinished hnext rfl

variable (format) in
theorem foldlM_write_agree (hfragments : s.fragments = []) (hbytes : s.fragmentBytes = 0)
    (hopen : s.finished = false) (chunks : List (List UInt8)) :
    Agree (Records.tail newline chunks.flatten) (s.inputBytes + chunks.flatten.length)
      (chunks.foldlM (write format) s) (feed format s chunks.flatten) := by
  induction chunks using List.reverseRecOn with
  | nil =>
    have hpending : pending s = [] := by rw [pending, hfragments]; rfl
    refine ⟨rfl, hpending, ⟨?_, ?_⟩, rfl, hopen⟩
    · rw [hpending]
      exact hbytes
    · rw [hpending]
      exact List.not_mem_nil
  | append_singleton chunks chunk ih =>
    rw [foldlM_snoc, List.flatten_append, List.flatten_singleton, feed,
      Records.complete_append, Records.tail_append, consumeRecords_append]
    change Agree _ _ _ (feed format s chunks.flatten >>= _)
    cases hwritten : chunks.foldlM (write format) s with
    | error error =>
      cases hfed : feed format s chunks.flatten with
      | error other =>
        rw [hwritten, hfed] at ih
        exact ih
      | ok u =>
        rw [hwritten, hfed] at ih
        exact ih.elim
    | ok t =>
      cases hfed : feed format s chunks.flatten with
      | error other =>
        rw [hwritten, hfed] at ih
        exact ih.elim
      | ok u =>
        rw [hwritten, hfed] at ih
        obtain ⟨hbare, hpending, hsound, hinput, hfinished⟩ := ih
        have hposition : s.inputBytes
            + (Records.join newline (Records.complete newline chunks.flatten)).length
            + (pending t).length = t.inputBytes + 0 := by
          have hlength := congrArg List.length
            (Records.join_complete newline chunks.flatten)
          rw [List.length_append] at hlength
          rw [hinput, hpending]
          omega
        have hrest := writeFrom_agree format chunk
          (s := { t with inputBytes := t.inputBytes + chunk.length })
          ⟨hsound.fragmentBytes, hsound.noNewline⟩ hfinished hposition
        have hkept : pending { t with inputBytes := t.inputBytes + chunk.length }
            = Records.tail newline chunks.flatten := hpending
        rw [hkept, List.drop_zero] at hrest
        have hwrite : write format t chunk = writeFrom format chunk t.inputBytes 0
            { t with inputBytes := t.inputBytes + chunk.length } := by
          rw [write, if_neg (by rw [hfinished]; exact Bool.false_ne_true)]
        have hbytes : s.inputBytes + (chunks.flatten ++ chunk).length
            = t.inputBytes + chunk.length := by
          rw [List.length_append, hinput]
          omega
        rw [ok_bind, ok_bind, hwrite, hbytes, ← hbare]
        exact hrest

theorem consumeRecords_committed {start : ℕ} {records : List (List UInt8)}
    (h : consumeRecords format start records s = .ok t) :
    (t.eventCount = s.eventCount ∧ t.committedBytes = s.committedBytes) ∨
      ∃ pre line post u v, records = pre ++ line :: post ∧
        consumeRecords format start pre s = .ok u ∧
        consumeRecords format start (pre ++ [line]) s = .ok v ∧
        v.eventCount = u.eventCount + 1 ∧ t.eventCount = v.eventCount ∧
        t.committedBytes = start + (Records.join newline (pre ++ [line])).length := by
  induction records using List.reverseRecOn generalizing t with
  | nil =>
    cases h
    exact .inl ⟨rfl, rfl⟩
  | append_singleton records line ih =>
    have hwhole := h
    rw [consumeRecords_append, bind_ok_iff] at h
    obtain ⟨u, hu, hlast⟩ := h
    have hconsume : consumeEventLine format u line
        (start + (Records.join newline records).length + line.length + 1) = .ok t := by
      rw [consumeRecords, bind_ok_iff] at hlast
      obtain ⟨v, hv, hnil⟩ := hlast
      cases hnil
      exact hv
    cases (consumeEventLine_progress hconsume).2 with
    | inr haccepted =>
      refine .inr ⟨records, line, [], u, t, rfl, hu, hwhole, haccepted.1, rfl, ?_⟩
      rw [haccepted.2, Records.join_append, Records.join_cons, List.length_append,
        List.length_append, List.length_cons, Records.join_nil, List.length_nil]
      omega
    | inl hignored =>
      cases ih hu with
      | inl hnone =>
        exact .inl ⟨hignored.1.trans hnone.1, hignored.2.trans hnone.2⟩
      | inr hsome =>
        obtain ⟨pre, accepted, post, v, w, hrecords, hv, hw, hcount, hlater, hcommitted⟩ :=
          hsome
        refine .inr ⟨pre, accepted, post ++ [line], v, w, ?_, hv, hw, hcount,
          hignored.1.trans hlater, hignored.2.trans hcommitted⟩
        rw [hrecords, List.append_assoc, List.cons_append]

variable (format) in
/-- The scanner after the writes of the chunks. -/
def written (recovery : Recovery) (headerRecord : List UInt8) (chunks : List (List UInt8)) :
    Except Refusal (Scanner Meta σ) := do
  let s ← create format headerRecord recovery
  chunks.foldlM (write format) s

variable (format) in
/-- The committed bytes end with the header record, or with the newline of the last event that
was accepted: the scanner counts one more event with that record than without it, and as many as
in the end. -/
def CommittedAtNewline (recovery : Recovery) (headerRecord bytes : List UInt8)
    (s : Scanner Meta σ) : Prop :=
  (s.eventCount = 0 ∧ s.committedBytes = headerRecord.length) ∨
    ∃ pre line post before after, bytes = pre ++ line ++ newline :: post ∧
      newline ∉ line ∧ (pre = [] ∨ pre.getLast? = some newline) ∧
      written format recovery headerRecord [pre] = .ok before ∧
      written format recovery headerRecord [pre ++ line ++ [newline]] = .ok after ∧
      after.eventCount = before.eventCount + 1 ∧ s.eventCount = after.eventCount ∧
      s.committedBytes = (headerRecord ++ pre ++ line ++ [newline]).length

variable {recovery : Recovery} {headerRecord : List UInt8}

section

variable (h : create format headerRecord recovery = .ok s)
include h

/-- A new scanner keeps nothing, and has committed the header record. -/
theorem create_ok :
    s.fragments = [] ∧ s.fragmentBytes = 0 ∧ s.finished = false ∧
      s.inputBytes = headerRecord.length ∧ s.eventCount = 0 ∧
      s.committedBytes = headerRecord.length := by
  rw [create, bind_ok_iff] at h
  obtain ⟨parsed, _, h⟩ := h
  cases h
  exact ⟨rfl, rfl, rfl, rfl, rfl, rfl⟩

theorem written_eq (chunks : List (List UInt8)) :
    written format recovery headerRecord chunks = chunks.foldlM (write format) s := by
  rw [written, h, ok_bind]

/-- The writes leave what one cut of all the bytes leaves. -/
theorem written_of_feed {bytes : List UInt8}
    (hfed : feed format s bytes = .ok t) :
    ∃ u, written format recovery headerRecord [bytes] = .ok u ∧ bare u = t := by
  have ⟨hfragments, hbytes, hopen, _⟩ := create_ok h
  have hagree := foldlM_write_agree format hfragments hbytes hopen [bytes]
  rw [List.flatten_singleton, hfed, ← written_eq h] at hagree
  cases hwritten : written format recovery headerRecord [bytes] with
  | error error =>
    rw [hwritten] at hagree
    exact hagree.elim
  | ok u =>
    rw [hwritten] at hagree
    exact ⟨u, rfl, hagree.1⟩

theorem scan_eq_feed (chunks : List (List UInt8)) :
    scan format recovery headerRecord chunks = feed format s chunks.flatten >>= finish format := by
  have ⟨hfragments, hbytes, hopen, _⟩ := create_ok h
  have hagree := foldlM_write_agree format hfragments hbytes hopen chunks
  rw [scan, h, ok_bind]
  cases hwritten : chunks.foldlM (write format) s with
  | error error =>
    cases hfed : feed format s chunks.flatten with
    | error other =>
      rw [hwritten, hfed] at hagree
      rw [error_bind, error_bind, show error = other from hagree]
    | ok t =>
      rw [hwritten, hfed] at hagree
      exact hagree.elim
  | ok u =>
    cases hfed : feed format s chunks.flatten with
    | error other =>
      rw [hwritten, hfed] at hagree
      exact hagree.elim
    | ok t =>
      rw [hwritten, hfed] at hagree
      rw [ok_bind, ok_bind, ← hagree.1]
      rfl

end

theorem committedAtNewline_of_written {chunks : List (List UInt8)}
    (h : written format recovery headerRecord chunks = .ok s) :
    CommittedAtNewline format recovery headerRecord chunks.flatten s := by
  rw [written, bind_ok_iff] at h
  obtain ⟨initial, hcreate, hwritten⟩ := h
  have ⟨hfragments, hbytes, hopen, hinput, hcount, hcommitted⟩ := create_ok hcreate
  have hagree := foldlM_write_agree format hfragments hbytes hopen chunks
  rw [hwritten] at hagree
  cases hfed : feed format initial chunks.flatten with
  | error other =>
    rw [hfed] at hagree
    exact hagree.elim
  | ok t =>
    rw [hfed] at hagree
    have hbare := hagree.1
    have hsameCount : t.eventCount = s.eventCount := by rw [← hbare]; rfl
    have hsameBytes : t.committedBytes = s.committedBytes := by rw [← hbare]; rfl
    cases consumeRecords_committed hfed with
    | inl hnone =>
      exact .inl ⟨hsameCount.symm.trans (hnone.1.trans hcount),
        hsameBytes.symm.trans (hnone.2.trans hcommitted)⟩
    | inr hsome =>
      obtain ⟨pre, line, post, u, v, hrecords, hu, hv, haccepted, hlater, hend⟩ := hsome
      have hclean : ∀ other ∈ pre ++ line :: post, newline ∉ other :=
        fun other hother => Records.not_mem_of_mem_complete (hrecords ▸ hother)
      have hpre : ∀ other ∈ pre, newline ∉ other :=
        fun other hother => hclean other (List.mem_append_left _ hother)
      have hthrough : ∀ other ∈ pre ++ [line], newline ∉ other := by
        intro other hother
        refine hclean other ?_
        cases List.mem_append.mp hother with
        | inl hin => exact List.mem_append_left _ hin
        | inr hin => exact List.mem_append_right pre (by simp [List.mem_singleton.mp hin])
      have hjoined : Records.join newline (pre ++ [line])
          = Records.join newline pre ++ line ++ [newline] := by
        rw [Records.join_append, Records.join_cons, Records.join_nil, List.append_assoc]
      obtain ⟨before, hbefore, hbeforeBare⟩ := written_of_feed hcreate
        (show feed format initial (Records.join newline pre) = .ok u by
          rw [feed, Records.complete_join hpre]
          exact hu)
      obtain ⟨after, hafter, hafterBare⟩ := written_of_feed hcreate
        (show feed format initial (Records.join newline pre ++ line ++ [newline]) = .ok v by
          rw [feed, ← hjoined, Records.complete_join hthrough]
          exact hv)
      have hbeforeCount : u.eventCount = before.eventCount := by rw [← hbeforeBare]; rfl
      have hafterCount : v.eventCount = after.eventCount := by rw [← hafterBare]; rfl
      refine .inr ⟨Records.join newline pre, line,
        Records.join newline post ++ Records.tail newline chunks.flatten, before, after, ?_,
        hclean line (by simp), ?_, hbefore, hafter, ?_, ?_, ?_⟩
      · have hsplit := Records.join_complete newline chunks.flatten
        rw [hrecords, Records.join_append, Records.join_cons] at hsplit
        refine hsplit.symm.trans ?_
        simp only [List.append_assoc, List.cons_append]
      · cases pre using List.reverseRecOn with
        | nil => exact .inl rfl
        | append_singleton rest last =>
          rw [Records.join_append, Records.join_cons, Records.join_nil]
          exact .inr (by simp)
      · rw [← hafterCount, ← hbeforeCount]
        exact haccepted
      · rw [← hsameCount, hlater, hafterCount]
      · rw [← hsameBytes, hend, hjoined, hinput]
        simp only [List.length_append]
        omega

/-- However the bytes behind the header record are cut into chunks, the scan is refused alike or
returns the same events, inherited cut and committed bytes, and the committed bytes end with the
newline of the last accepted event. -/
theorem scan_chunks (format : Format Meta Event σ) (recovery : Recovery)
    (headerRecord : List UInt8) (chunks : List (List UInt8)) :
    scan format recovery headerRecord chunks = scan format recovery headerRecord [chunks.flatten] ∧
      ∀ s, written format recovery headerRecord chunks = .ok s →
        CommittedAtNewline format recovery headerRecord chunks.flatten s := by
  refine ⟨?_, fun s hs => committedAtNewline_of_written hs⟩
  cases hcreate : create format headerRecord recovery with
  | error error => rw [scan, scan, hcreate, error_bind, error_bind]
  | ok s => rw [scan_eq_feed hcreate, scan_eq_feed hcreate, List.flatten_singleton]

end Whole

end SessionLogScanner

end TianmaCoder
