import TianmaCoder.Persistence.LogScanner
import TianmaCoder.Persistence.ZstdTorn

/-!
# Reading a torn log

A plain log is scanned behind its header record. A compressed log has one frame with the header
record, and one for each batch of event records. The read hands the plaintext of the complete frames
to the scanner, and then what can be decoded of a torn final frame, of which the complete records
are recovered and are to be written again.

## Main definitions

* `SessionLogScanner.scanLog`, `Zstd.readZstdPrefix` — the reads.
* `Zstd.Torn` — a log cut at some byte.

## Main results

* `SessionLogScanner.scanLog_torn`, `Zstd.readZstdPrefix_torn`.
-/

namespace TianmaCoder

open Checked

namespace SessionLogScanner

variable {Meta Event σ : Type} {format : Format Meta Event σ} {headerRecord t : List UInt8}
  {records : List (List UInt8)}

/-! ## A plain log -/

variable (format) in
/-- Parse a complete or torn buffer into its preserved event prefix. -/
def scanLog (buffer : List UInt8) : Except Refusal (SessionLogScan Meta Event) :=
  if newline ∈ buffer then
    scan format .recoverable (buffer.take (buffer.idxOf newline + 1))
      [buffer.drop (buffer.idxOf newline + 1)]
  else throw (.error "empty or header-less session log")

variable (format) in
/-- The header record and every record behind it are accepted. -/
def Accepts (headerRecord : List UInt8) (records : List (List UInt8)) : Prop :=
  ∃ s u, create format headerRecord .recoverable = .ok s ∧
    consumeRecords format headerRecord.length records (bare s) = .ok u ∧
    u.eventCount = records.length

/-- A scanner counts at most one event for each record; if it counts all, it commits all. -/
theorem consumeRecords_count {start : ℕ} {s u : Scanner Meta σ}
    (h : consumeRecords format start records s = .ok u) :
    u.eventCount ≤ s.eventCount + records.length ∧
      (u.eventCount = s.eventCount + records.length → s.committedBytes = start →
        u.committedBytes = start + (Records.join newline records).length) := by
  induction records generalizing start s with
  | nil =>
    cases h
    exact ⟨Nat.le_refl _, fun _ hstart => hstart⟩
  | cons line records ih =>
    rw [consumeRecords, bind_ok_iff] at h
    obtain ⟨v, hv, hrest⟩ := h
    obtain ⟨hle, hall⟩ := ih hrest
    rw [List.length_cons, Records.join_cons, List.length_append, List.length_cons]
    rcases (consumeEventLine_progress hv).2 with ⟨hcount, -⟩ | ⟨hcount, hcommitted⟩
    · exact ⟨by omega, fun heq => by omega⟩
    · refine ⟨by omega, fun heq _ => ?_⟩
      rw [hall (by omega) hcommitted]
      omega

/-- The first of some records that are accepted are accepted. -/
theorem Accepts.front {front : List (List UInt8)} (h : Accepts format headerRecord records)
    (hfront : front <+: records) : Accepts format headerRecord front := by
  obtain ⟨s, u, hcreate, hu, hall⟩ := h
  obtain ⟨-, -, -, -, hcount, -⟩ := create_ok hcreate
  have hbare : (bare s).eventCount = 0 := hcount
  obtain ⟨back, rfl⟩ := hfront
  rw [consumeRecords_append, bind_ok_iff] at hu
  obtain ⟨v, hv, hback⟩ := hu
  have hle := (consumeRecords_count hv).1
  have hrest := (consumeRecords_count hback).1
  rw [List.length_append] at hall
  exact ⟨s, v, hcreate, hv, by omega⟩

/-- Whatever part of the records arrives, in any chunks, the complete ones are accepted. -/
theorem Accepts.writes (h : Accepts format headerRecord records) :
    ∃ s, create format headerRecord .recoverable = .ok s ∧
      ∀ chunks : List (List UInt8), Records.complete newline chunks.flatten <+: records →
        ∃ v, chunks.foldlM (write format) s = .ok v ∧
          v.eventCount = (Records.complete newline chunks.flatten).length ∧
          v.inputBytes = headerRecord.length + chunks.flatten.length ∧
          v.committedBytes = headerRecord.length +
            (Records.join newline (Records.complete newline chunks.flatten)).length := by
  obtain ⟨s, -, hcreate, -⟩ := id h
  obtain ⟨hfragments, hbytes, hopen, hinput, hcount, hcommitted⟩ := create_ok hcreate
  refine ⟨s, hcreate, fun chunks hpre => ?_⟩
  obtain ⟨s', w, hcreate', hw, hwcount⟩ := h.front hpre
  rw [hcreate, Except.ok.injEq] at hcreate'
  subst hcreate'
  have hagree := foldlM_write_agree format hfragments hbytes hopen chunks
  rw [feed, hinput, hw] at hagree
  cases hfold : chunks.foldlM (write format) s with
  | error error =>
    rw [hfold] at hagree
    exact hagree.elim
  | ok v =>
    rw [hfold] at hagree
    obtain ⟨rfl, -, -, hvinput, -⟩ := hagree
    have hall : (bare v).eventCount = (bare s).eventCount +
        (Records.complete newline chunks.flatten).length := by
      rw [hwcount, show (bare s).eventCount = 0 from hcount, Nat.zero_add]
    exact ⟨v, rfl, hwcount, hvinput, (consumeRecords_count hw).2 hall hcommitted⟩

/-- The outcome is a matter of the complete records. -/
theorem finish_congr {chunks chunks' : List (List UInt8)} {s s' : Scanner Meta σ}
    (h : written format .recoverable headerRecord chunks = .ok s)
    (h' : written format .recoverable headerRecord chunks' = .ok s')
    (hsame : Records.complete newline chunks.flatten = Records.complete newline chunks'.flatten) :
    finish format s = finish format s' := by
  rw [written, bind_ok_iff] at h h'
  obtain ⟨initial, hcreate, hs⟩ := h
  obtain ⟨initial', hcreate', hs'⟩ := h'
  rw [hcreate, Except.ok.injEq] at hcreate'
  subst hcreate'
  have hscan := scan_eq_feed hcreate chunks
  have hscan' := scan_eq_feed hcreate chunks'
  rw [scan, hcreate, ok_bind] at hscan hscan'
  rw [hs, ok_bind, feed, hsame] at hscan
  rw [hs', ok_bind, feed] at hscan'
  rw [hscan, hscan']

theorem tail_join (h : ∀ record ∈ records, newline ∉ record) :
    Records.tail newline (Records.join newline records) = [] := by
  have hsplit := Records.join_complete newline (Records.join newline records)
  rw [Records.complete_join h] at hsplit
  exact List.append_right_eq_self.mp hsplit

end SessionLogScanner

namespace Zstd

open SessionLogScanner

/-! ## A compressed log -/

variable {Meta Event σ : Type}

/-- The decompression: of a complete frame, whose checksum is validated, and of the available bytes
of an incomplete one. -/
structure Decoder where
  decodeFrame : List UInt8 → Except Refusal (List UInt8)
  decompressZstdPrefix : List UInt8 → Except Refusal (List UInt8)

/-- What a read returns. The torn bytes are to be truncated, and the recovered tail rewritten. -/
structure ZstdPrefix (Meta Event : Type) where
  header : Meta
  inheritedEventCount : ℕ
  events : List Event
  tornTruncateTo : Option ℕ
  recoveredTail : List Event

def assertZstdHeaderFrame (plaintext : List UInt8) : Except Refusal Unit :=
  if plaintext = [] ∨ plaintext.idxOf newline ≠ plaintext.length - 1 then
    throw (.error "corrupt Zstandard session log: first frame is not exactly one header line")
  else pure ()

section Read

variable (format : Format Meta Event σ) (decoder : Decoder)

/-- The plaintext of the frame at a range. -/
def decodeRange (buffer : List UInt8) (range : ZstdFrameRange) : Except Refusal (List UInt8) :=
  decoder.decodeFrame ((buffer.take range.stop).drop range.start)

/-- The result of a scan, where events behind the complete frames are a recovered tail. -/
def recovered (complete : ℕ) (torn : Option ℕ) (scanned : SessionLogScan Meta Event) :
    ZstdPrefix Meta Event where
  header := scanned.header
  inheritedEventCount := scanned.inheritedEventCount
  events := scanned.events
  tornTruncateTo := torn
  recoveredTail := if torn.isSome then scanned.events.drop complete else []

/-- What can be decoded of a torn final frame; the decoder may end before it emits any plaintext. -/
def tornPlaintext (torn : List UInt8) : List UInt8 :=
  match decoder.decompressZstdPrefix torn with
  | .ok plaintext => plaintext
  | .error _ => []

/-- What is read behind the complete frames. -/
def readTail (buffer : List UInt8) (torn : Option ℕ) (complete : Scanner Meta σ) :
    Except Refusal (ZstdPrefix Meta Event) :=
  match torn with
  | none => (finish format complete).map (recovered complete.eventCount none)
  | some start => do
    let s ← write format complete (tornPlaintext decoder (buffer.drop start))
    (finish format s).map (recovered complete.eventCount (some start))

/-- Decode complete frames and retain complete JSONL records from a torn final frame. -/
def readZstdPrefix (buffer : List UInt8) : Except Refusal (ZstdPrefix Meta Event) := do
  let scan ← (scanZstdFrames buffer none).mapError Refusal.error
  match scan.frames with
  | [] => throw (.error "empty or header-less Zstandard session log")
  | first :: rest =>
    let headerRecord ← decodeRange decoder buffer first
    assertZstdHeaderFrame headerRecord
    let s ← create format headerRecord .recoverable
    let complete ← rest.foldlM
      (fun s range => decodeRange decoder buffer range >>= write format s) s
    if complete.committedBytes ≠ complete.inputBytes then
      throw (.error "corrupt Zstandard session log: complete frame contains a torn JSONL record")
    else readTail format decoder buffer scan.tornStart complete

end Read

/-! ## Cut logs -/

/-- A frame of a log, and the records that it holds. -/
structure LogFrame where
  frame : ZstdFrame
  records : List (List UInt8)
  noNewline : ∀ record ∈ records, newline ∉ record

/-- The plaintext of a frame. -/
def LogFrame.plaintext (frame : LogFrame) : List UInt8 := Records.join newline frame.records

/-- The bytes of a log. -/
def logBytes (log : List LogFrame) : List UInt8 := stream (log.map (·.frame))

/-- The records of a log. -/
def logRecords (log : List LogFrame) : List (List UInt8) := log.flatMap (·.records)

/-- A log that is cut in or before a frame: the frames before the cut, and the bytes of the torn
one. -/
structure Torn (log : List LogFrame) (t : List UInt8) (complete : List LogFrame)
    (torn : List UInt8) (records : List (List UInt8)) : Prop where
  bytes_eq : t = logBytes complete ++ torn
  cut : (torn = [] ∧ records = [] ∧ complete <+: log) ∨
    torn ≠ [] ∧ ∃ frame, complete ++ [frame] <+: log ∧ torn <+: frame.frame.bytes ∧
      torn ≠ frame.frame.bytes ∧ records = frame.records

variable {log complete : List LogFrame} {t torn : List UInt8} {records : List (List UInt8)}

/-- The frames before a cut are complete. -/
theorem cut_append (offset : ℕ) (frames later : List ZstdFrame) {k : ℕ}
    (h : offset + (stream frames).length ≤ k) :
    completeIn offset (frames ++ later) k =
        rangesFrom offset frames ++ completeIn (offset + (stream frames).length) later k ∧
      tornIn offset (frames ++ later) k = tornIn (offset + (stream frames).length) later k := by
  induction frames generalizing offset with
  | nil => exact ⟨rfl, rfl⟩
  | cons frame frames ih =>
    have hlength : (stream (frame :: frames)).length =
        frame.bytes.length + (stream frames).length := by
      rw [stream, List.flatMap_cons, List.length_append]
      rfl
    rw [hlength] at h ⊢
    obtain ⟨hcomplete, htorn⟩ := ih (offset + frame.bytes.length) (by omega)
    rw [List.cons_append, completeIn_cons _ _ _ (by omega), tornIn_cons _ _ _ (by omega), hcomplete,
      htorn, rangesFrom, List.cons_append, Nat.add_assoc]
    exact ⟨rfl, rfl⟩

/-- The scan of a cut log. -/
theorem Torn.scan (h : Torn log t complete torn records) :
    scanZstdFrames t none = .ok ⟨rangesFrom 0 (complete.map (·.frame)),
      if torn = [] then none else some (logBytes complete).length⟩ := by
  have hlength : t.length = (logBytes complete).length + torn.length := by
    rw [h.bytes_eq, List.length_append]
  have hfound : ∀ later : List ZstdFrame, t <+: stream (complete.map (·.frame) ++ later) →
      completeIn (logBytes complete).length later t.length = [] →
      scanZstdFrames t none = .ok ⟨rangesFrom 0 (complete.map (·.frame)),
        tornIn (logBytes complete).length later t.length⟩ := by
    intro later hcut hnone
    obtain ⟨scan, hscan, hto⟩ := scanFrames_cut none _ [] hcut []
    obtain ⟨hcomplete, htorn⟩ := cut_append 0 (complete.map (·.frame)) later
      (k := t.length) (by rw [Nat.zero_add, hlength]; exact Nat.le_add_right _ _)
    rw [List.nil_append, List.length_nil] at hscan
    rw [List.length_nil, Nat.zero_add, hcomplete, htorn, Nat.zero_add] at hto
    obtain ⟨frames, tornStart⟩ := scan
    have hframes := hto.frames
    have hstart := hto.tornStart (by simp)
    have hlater : completeIn (stream (complete.map (·.frame))).length later t.length = [] := hnone
    rw [limited, List.nil_append, hlater, List.append_nil] at hframes
    rw [scanZstdFrames, hscan]
    exact congrArg Except.ok (congrArg₂ ZstdFrameScan.mk hframes hstart)
  rcases h.cut with ⟨rfl, -, -⟩ | ⟨hne, frame, -, hpart, hwhole, -⟩
  · rw [if_pos rfl]
    refine hfound [] ?_ rfl
    rw [h.bytes_eq, List.append_nil, List.append_nil]
    exact List.prefix_refl _
  · have hpos : 0 < torn.length := List.length_pos_iff.mpr hne
    have hshort : torn.length < frame.frame.bytes.length :=
      lt_of_le_of_ne hpart.length_le fun heq => hwhole (hpart.eq_of_length heq)
    have hfirst : completeIn (logBytes complete).length [frame.frame] t.length = [] ∧
        tornIn (logBytes complete).length [frame.frame] t.length =
          some (logBytes complete).length :=
      cut_first [] (by omega) (by omega)
    rw [if_neg hne, ← hfirst.2]
    refine hfound [frame.frame] ?_ hfirst.1
    rw [h.bytes_eq, stream, List.flatMap_append, List.flatMap_singleton]
    exact (List.prefix_append_right_inj _).mpr hpart

/-! ## The records of a cut log -/

variable {format : Format Meta Event σ} {decoder : Decoder} {header : LogFrame}
  {batches : List LogFrame}

variable (format decoder) in
/-- A read gives what the scanner makes of the bytes, all of whose complete records it accepts. -/
def ReadsAs (header : LogFrame) (t bytes : List UInt8) (complete : ℕ) (torn : Option ℕ) : Prop :=
  ∃ s, written format .recoverable header.plaintext [bytes] = .ok s ∧
    s.eventCount = (Records.complete newline bytes).length ∧
    readZstdPrefix format decoder t = (finish format s).map (recovered complete torn)

/-- A log as the write path leaves it: a header record and batches, that decompress and of which
every record is accepted. -/
structure WellWritten (format : Format Meta Event σ) (decoder : Decoder) (header : LogFrame)
    (batches : List LogFrame) : Prop where
  decoded : ∀ frame ∈ header :: batches,
    decoder.decodeFrame frame.frame.bytes = .ok frame.plaintext
  prefixes : ∀ frame ∈ header :: batches, ∀ part plaintext, part <+: frame.frame.bytes →
    decoder.decompressZstdPrefix part = .ok plaintext → plaintext <+: frame.plaintext
  accepted : Accepts format header.plaintext (logRecords batches)

theorem assertZstdHeaderFrame_of_create {recovery : Recovery} {plaintext : List UInt8}
    {s : Scanner Meta σ} (h : create format plaintext recovery = .ok s) :
    assertZstdHeaderFrame plaintext = .ok () := by
  rw [create, bind_ok_iff] at h
  obtain ⟨parsed, hparsed, -⟩ := h
  rw [parseHeaderRecord, throw_eq, guard_ok_iff] at hparsed
  rw [assertZstdHeaderFrame, if_neg]
  · rfl
  · exact fun hbad => hparsed.1 (hbad.imp_right .inr)

/-- The frames before the cut are decoded and written to the scanner. -/
theorem foldlM_decode
    (h : ∀ frame ∈ complete, decoder.decodeFrame frame.frame.bytes = .ok frame.plaintext)
    (pre rest : List UInt8) (s : Scanner Meta σ) :
    (rangesFrom pre.length (complete.map (·.frame))).foldlM (fun s range =>
        decodeRange decoder (pre ++ (logBytes complete ++ rest)) range >>= write format s) s =
      (complete.map (·.plaintext)).foldlM (write format) s := by
  induction complete generalizing pre s with
  | nil => rfl
  | cons frame complete ih =>
    have hbytes : logBytes (frame :: complete) = frame.frame.bytes ++ logBytes complete := rfl
    have hdecode : decodeRange decoder (pre ++ (logBytes (frame :: complete) ++ rest))
        ⟨pre.length, pre.length + frame.frame.bytes.length⟩ = .ok frame.plaintext := by
      rw [decodeRange, hbytes, List.append_assoc, ← List.append_assoc, ← List.length_append,
        List.take_left, List.drop_left, h frame List.mem_cons_self]
    rw [List.map_cons, rangesFrom, List.foldlM_cons, List.map_cons, List.foldlM_cons, hdecode,
      ok_bind]
    cases write format s frame.plaintext with
    | error error => rfl
    | ok v =>
      have hrest := ih (fun f hf => h f (List.mem_cons_of_mem _ hf)) (pre ++ frame.frame.bytes) v
      rw [List.length_append, List.append_assoc, ← List.append_assoc frame.frame.bytes, ← hbytes]
        at hrest
      exact hrest

theorem flatten_plaintext (frames : List LogFrame) :
    (frames.map (·.plaintext)).flatten = Records.join newline (logRecords frames) := by
  induction frames with
  | nil => rfl
  | cons frame frames ih =>
    rw [List.map_cons, List.flatten_cons, ih]
    exact (Records.join_append newline frame.records (logRecords frames)).symm

theorem LogFrame.noNewline_logRecords (frames : List LogFrame) :
    ∀ record ∈ logRecords frames, newline ∉ record := by
  intro record hrecord
  obtain ⟨frame, -, hin⟩ := List.mem_flatMap.mp hrecord
  exact frame.noNewline record hin

/-- The records of whole frames are complete. -/
theorem complete_join_append (frames : List LogFrame) (plaintext : List UInt8) :
    Records.complete newline (Records.join newline (logRecords frames) ++ plaintext) =
      logRecords frames ++ Records.complete newline plaintext := by
  have hlines := LogFrame.noNewline_logRecords frames
  rw [Records.complete_append, Records.complete_join hlines, tail_join hlines, List.nil_append]

/-- The read of a cut log of which the complete records are accepted. -/
theorem Torn.read (htorn : Torn log t (header :: complete) torn records)
    (hdecoded : ∀ frame ∈ header :: complete,
      decoder.decodeFrame frame.frame.bytes = .ok frame.plaintext)
    {plaintext : List UInt8}
    (hplaintext : (if torn = [] then [] else tornPlaintext decoder torn) = plaintext)
    (haccepts : Accepts format header.plaintext
      (logRecords complete ++ Records.complete newline plaintext)) :
    ReadsAs format decoder header t (Records.join newline (logRecords complete) ++ plaintext)
      (logRecords complete).length
      (if torn = [] then none else some (logBytes (header :: complete)).length) := by
  obtain ⟨s, hcreate, hwrites⟩ := haccepts.writes
  have hframes := flatten_plaintext complete
  have hwhole := Records.complete_join (LogFrame.noNewline_logRecords complete)
  obtain ⟨v, hv, hcount, hinput, hcommitted⟩ := hwrites (complete.map (·.plaintext)) (by
    rw [hframes, hwhole]
    exact List.prefix_append _ _)
  rw [hframes] at hinput
  rw [hframes, hwhole] at hcount hcommitted
  obtain ⟨u, hu, hucount, -⟩ := hwrites [Records.join newline (logRecords complete) ++ plaintext]
    (by rw [List.flatten_singleton, complete_join_append])
  rw [List.flatten_singleton] at hucount
  have hwritten : written format .recoverable header.plaintext
      [Records.join newline (logRecords complete) ++ plaintext] = .ok u := by
    rw [written, hcreate, ok_bind, hu]
  refine ⟨u, hwritten, hucount, ?_⟩
  have hbytes : t = header.frame.bytes ++ (logBytes complete ++ torn) :=
    htorn.bytes_eq.trans (List.append_assoc _ _ _)
  have hheader : decodeRange decoder t ⟨0, 0 + header.frame.bytes.length⟩ =
      .ok header.plaintext := by
    rw [decodeRange, Nat.zero_add, List.drop_zero, hbytes, List.take_left,
      hdecoded header List.mem_cons_self]
  have hfold : _ = (complete.map (·.plaintext)).foldlM (write format) s := foldlM_decode
    (fun frame hframe => hdecoded frame (List.mem_cons_of_mem _ hframe))
    header.frame.bytes torn s
  rw [← hbytes, hv] at hfold
  have hsame : v.committedBytes = v.inputBytes := hcommitted.trans hinput.symm
  rw [Nat.zero_add] at hheader
  rw [readZstdPrefix, htorn.scan, ← hcount]
  simp only [Except.mapError, ok_bind, List.map_cons, rangesFrom, hheader, Nat.zero_add,
    assertZstdHeaderFrame_of_create hcreate, hcreate, hfold, hsame, ne_eq, not_true_eq_false,
    if_false]
  -- the scan does not depend on the frames
  have hsplit : ∀ (chunks : List (List UInt8)) (w : Scanner Meta σ),
      chunks.foldlM (write format) s = .ok w →
      chunks.flatten = Records.join newline (logRecords complete) ++ plaintext →
      finish format w = finish format u := by
    intro chunks w hw hchunks
    refine finish_congr (by rw [written, hcreate, ok_bind, hw]) hwritten ?_
    rw [hchunks, List.flatten_singleton]
  by_cases hnone : torn = []
  · have hempty : plaintext = [] := by rw [← hplaintext, if_pos hnone]
    rw [if_pos hnone, readTail, hsplit _ v hv (by rw [hframes, hempty, List.append_nil])]
  · have hdrop : t.drop (logBytes (header :: complete)).length = torn := by
      rw [htorn.bytes_eq, List.drop_left]
    have hflat : (complete.map (·.plaintext) ++ [plaintext]).flatten =
        Records.join newline (logRecords complete) ++ plaintext := by
      rw [List.flatten_append, hframes, List.flatten_singleton]
    obtain ⟨w, hw, -⟩ := hwrites (complete.map (·.plaintext) ++ [plaintext])
      (by rw [hflat, complete_join_append])
    have hfinish := hsplit _ w hw hflat
    rw [foldlM_snoc, hv, ok_bind] at hw
    rw [if_neg hnone] at hplaintext ⊢
    rw [readTail, hdrop, hplaintext, hw, ← hfinish]
    rfl

section

variable (h : WellWritten format decoder header batches)
include h

end

end Zstd

end TianmaCoder
