import Mathlib.Algebra.GroupWithZero.Nat
import TianmaCoder.Lib.Utf16
import TianmaCoder.Util.RetainedText

/-!
# The output ring of a job

A ring keeps the newest output of a job as chunks at absolute byte offsets. The head is dropped
chunk by chunk until the rest fits; a single chunk that is too large keeps the whole characters at
its end. Texts are lists of code units, and their bytes are those that a buffer holds of them.

## Main definitions

* `OutputRing` — the ring, with `append`, `trim` and `readFrom`.
* `OutputRing.Holds` — what the ring holds of a history of characters.

## Main results

* `OutputRing.Holds.append`, `OutputRing.Holds.trim` — the operations keep it.
-/

namespace TianmaCoder

open Utf8 (encode)

/-- The bytes of a text, `Buffer.from(text, 'utf8')`. -/
def textBytes (text : List UInt16) : List UInt8 := encode (Utf16.decode text)

/-- The text of some bytes, `buffer.toString('utf8')`. -/
def bytesText (bytes : List UInt8) : List UInt16 := Utf16.encode (Utf8.decode bytes)

inductive JobChannel where
  | stdout
  | stderr
  | log
  deriving DecidableEq

structure JobAppendOptions where
  channel : Option JobChannel := none
  gapBefore : Bool := false

/-- One retained entry; `start` is its `at`, and `bytes` caches its length. -/
structure RingChunk where
  start : ℕ
  text : List UInt16
  bytes : ℕ
  channel : Option JobChannel
  gapBefore : Bool
  deriving DecidableEq

/-- One chunk of a read. -/
structure JobChunk where
  start : ℕ
  text : List UInt16
  channel : Option JobChannel
  gapBefore : Bool
  deriving DecidableEq

/-- The result of one read. -/
structure JobOutputRead where
  chunks : List JobChunk
  next : ℕ
  lossy : Bool
  deriving DecidableEq

/-- The tail of `text` no longer than `maxBytes`, from a whole character on, and its length. -/
def utf8Tail (text : List UInt16) (maxBytes : ℕ) : List UInt16 × ℕ :=
  let raw := textBytes text
  let tail := (raw.drop (raw.length - maxBytes)).dropWhile OutputRetention.isContinuation
  (bytesText tail, tail.length)

structure OutputRing where
  chunks : List RingChunk
  retainedBytes : ℕ
  total : ℕ
  earliest : ℕ
  deriving DecidableEq

namespace OutputRing

def empty : OutputRing := ⟨[], 0, 0, 0⟩

/-- Drop head chunks while the rest does not fit and another chunk follows. -/
def dropHeads (cap : ℕ) : List RingChunk → ℕ → List RingChunk × ℕ
  | first :: second :: rest, retained =>
    if cap < retained then dropHeads cap (second :: rest) (retained - first.bytes)
    else (first :: second :: rest, retained)
  | chunks, retained => (chunks, retained)

/-- A chunk cut to its tail. -/
def cutChunk (single : RingChunk) (cap : ℕ) : RingChunk :=
  let tail := utf8Tail single.text cap
  { single with
    start := single.start + (single.bytes - tail.2)
    text := tail.1
    bytes := tail.2
    gapBefore := true }

/-- Drop head chunks until the ring fits `cap`. -/
def trim (ring : OutputRing) (cap : ℕ) : OutputRing :=
  let (chunks, retainedBytes) := dropHeads cap ring.chunks ring.retainedBytes
  let (chunks, retainedBytes) :=
    match chunks with
    | [single] =>
      if cap < single.bytes then ([cutChunk single cap], (cutChunk single cap).bytes)
      else ([single], retainedBytes)
    | chunks => (chunks, retainedBytes)
  { ring with
    chunks := chunks
    retainedBytes := retainedBytes
    earliest := (chunks.head?.map (·.start)).getD ring.total }

/-- A chunk at the end of the output. -/
def push (ring : OutputRing) (text : List UInt16) (options : JobAppendOptions) : OutputRing :=
  let bytes := (textBytes text).length
  { ring with
    chunks := ring.chunks ++ [⟨ring.total, text, bytes, options.channel, options.gapBefore⟩]
    total := ring.total + bytes
    retainedBytes := ring.retainedBytes + bytes }

/-- Append one chunk and trim the head to `cap`; false when the chunk was empty. -/
def append (ring : OutputRing) (text : List UInt16) (options : JobAppendOptions) (cap : ℕ) :
    OutputRing × Bool :=
  if text.length = 0 then (ring, false) else ((ring.push text options).trim cap, true)

/-- Retained chunks overlapping `[from, total)`. -/
def readFrom (ring : OutputRing) (offset : ℕ) : JobOutputRead where
  chunks := (ring.chunks.filter fun chunk => offset < chunk.start + chunk.bytes).map fun chunk =>
    ⟨chunk.start, chunk.text, chunk.channel, chunk.gapBefore⟩
  next := ring.total
  lossy := offset < ring.earliest

end OutputRing

/-! ## What a ring holds -/

/-- A chunk that keeps the end of another. -/
def RingChunk.Within (chunk' chunk : RingChunk) : Prop :=
  chunk.start ≤ chunk'.start ∧ chunk'.start + chunk'.bytes = chunk.start + chunk.bytes

namespace OutputRing

/-- The chunks lie side by side from one offset to another. -/
def Adjacent : ℕ → List RingChunk → ℕ → Prop
  | first, [], last => first = last
  | first, chunk :: chunks, last =>
    chunk.start = first ∧ Adjacent (chunk.start + chunk.bytes) chunks last

/-- The characters of some chunks. -/
def characters (chunks : List RingChunk) : List Char :=
  chunks.flatMap fun chunk => Utf16.decode chunk.text

/-- Some chunks are the characters behind `gone` of a history, whole. -/
structure Covers (chunks : List RingChunk) (retainedBytes : ℕ) (gone history : List Char) :
    Prop where
  pieces : history = gone ++ characters chunks
  adjacent : Adjacent (encode gone).length chunks (encode history).length
  sizes : ∀ chunk ∈ chunks, chunk.bytes = (textBytes chunk.text).length
  retained : retainedBytes = (chunks.map (·.bytes)).sum

/-- What a ring holds of a history of characters. -/
structure Holds (ring : OutputRing) (history : List Char) : Prop where
  total : ring.total = (encode history).length
  covers : ∃ gone, ring.earliest = (encode gone).length ∧
    Covers ring.chunks ring.retainedBytes gone history

theorem characters_cons (chunk : RingChunk) (chunks : List RingChunk) :
    characters (chunk :: chunks) = Utf16.decode chunk.text ++ characters chunks := rfl

theorem holds_empty : Holds empty [] :=
  ⟨rfl, [], rfl, ⟨rfl, rfl, List.forall_mem_nil _, rfl⟩⟩

variable {chunks : List RingChunk}

theorem adjacent_append {first last more : ℕ} {chunk : RingChunk} (h : Adjacent first chunks last)
    (hstart : chunk.start = last) (hmore : last + chunk.bytes = more) :
    Adjacent first (chunks ++ [chunk]) more := by
  induction chunks generalizing first with
  | nil =>
    have hfirst : first = last := h
    exact ⟨hstart.trans hfirst.symm, by show chunk.start + chunk.bytes = more; omega⟩
  | cons head chunks ih => exact ⟨h.1, ih h.2⟩

/-- The first of some chunks that lie side by side. -/
theorem Adjacent.head {first last : ℕ} (h : Adjacent first chunks last) :
    (chunks.head?.map (·.start)).getD last = first := by
  cases chunks with
  | nil => exact h.symm
  | cons chunk chunks => exact h.1

variable {history : List Char} {ring : OutputRing}

theorem Holds.push (h : Holds ring history) (text : List UInt16) (options : JobAppendOptions) :
    Holds (ring.push text options) (history ++ Utf16.decode text) := by
  obtain ⟨gone, hearliest, hcovers⟩ := h.covers
  have htotal : ring.total + (textBytes text).length =
      (encode (history ++ Utf16.decode text)).length := by
    rw [Utf8.encode_append, List.length_append, h.total]
    rfl
  refine ⟨htotal, gone, hearliest, ?_, ?_, ?_, ?_⟩
  · conv_lhs => rw [hcovers.pieces]
    rw [List.append_assoc]
    unfold OutputRing.push characters
    rw [List.flatMap_append, List.flatMap_singleton]
  · exact adjacent_append hcovers.adjacent h.total (by rw [← htotal, h.total])
  · intro chunk hchunk
    rcases List.mem_append.mp hchunk with hchunk | hchunk
    · exact hcovers.sizes chunk hchunk
    · rw [List.mem_singleton.mp hchunk]
  · unfold OutputRing.push
    simp [hcovers.retained]

variable {retained : ℕ}

theorem Covers.tail {first : RingChunk} {gone : List Char}
    (h : Covers (first :: chunks) retained gone history) :
    Covers chunks (retained - first.bytes) (gone ++ Utf16.decode first.text) history := by
  have hgone : (encode (gone ++ Utf16.decode first.text)).length =
      (encode gone).length + first.bytes := by
    rw [Utf8.encode_append, List.length_append, h.sizes first List.mem_cons_self]
    rfl
  constructor
  · rw [List.append_assoc, ← characters_cons]
    exact h.pieces
  · have htail := h.adjacent.2
    rw [h.adjacent.1] at htail
    rw [hgone]
    exact htail
  · intro chunk hchunk
    exact h.sizes chunk (List.mem_cons_of_mem _ hchunk)
  · rw [h.retained, List.map_cons, List.sum_cons, Nat.add_sub_cancel_left]

/-- Dropping heads leaves a suffix that covers what is behind it, and fits or is one chunk. -/
theorem Covers.dropHeads {gone : List Char} (h : Covers chunks retained gone history) (cap : ℕ) :
    ∃ gone', gone <+: gone' ∧
      Covers (dropHeads cap chunks retained).1 (dropHeads cap chunks retained).2 gone' history ∧
      ((dropHeads cap chunks retained).2 ≤ cap ∨ (dropHeads cap chunks retained).1.length ≤ 1) := by
  induction chunks generalizing retained gone with
  | nil => exact ⟨gone, List.prefix_refl _, h, .inr (by simp [OutputRing.dropHeads])⟩
  | cons first chunks ih =>
    cases chunks with
    | nil => exact ⟨gone, List.prefix_refl _, h, .inr (by simp [OutputRing.dropHeads])⟩
    | cons second rest =>
      unfold OutputRing.dropHeads
      by_cases hcap : cap < retained
      · rw [if_pos hcap]
        obtain ⟨gone', hpre, hcovers, hfits⟩ := ih h.tail
        exact ⟨gone', (List.prefix_append _ _).trans hpre, hcovers, hfits⟩
      · rw [if_neg hcap]
        exact ⟨gone, List.prefix_refl _, h, .inl (by omega)⟩

theorem mem_of_dropHeads {cap : ℕ} {chunk : RingChunk}
    (h : chunk ∈ (dropHeads cap chunks retained).1) : chunk ∈ chunks := by
  induction chunks generalizing retained with
  | nil => exact h
  | cons first chunks ih =>
    cases chunks with
    | nil => exact h
    | cons second rest =>
      unfold dropHeads at h
      split at h
      · exact List.mem_cons_of_mem _ (ih h)
      · exact h

theorem utf8Tail_spec (text : List UInt16) (cap : ℕ) :
    ∃ gone kept, Utf16.decode text = gone ++ kept ∧
      utf8Tail text cap = (Utf16.encode kept, (encode kept).length) ∧
      (encode kept).length ≤ cap := by
  have hle : (textBytes text).length - cap ≤ (encode (Utf16.decode text)).length :=
    Nat.sub_le _ _
  obtain ⟨kept, htail, hkept⟩ := OutputRetention.trimLeading_cut (Utf16.decode text) hle
  obtain ⟨gone, hgone⟩ := htail.whole
  have hfits := htail.fits
  refine ⟨gone, kept, hgone.symm, ?_, ?_⟩
  · unfold utf8Tail bytesText
    unfold OutputRetention.trimLeadingContinuationUtf8 at hkept
    dsimp only
    unfold textBytes at hkept ⊢
    rw [hkept, Utf8.decode_encode]
  · unfold textBytes at hfits
    omega

theorem Covers.cut {single : RingChunk} {gone : List Char}
    (h : Covers [single] retained gone history) (cap : ℕ) :
    ∃ gone', gone <+: gone' ∧
      Covers [cutChunk single cap] (cutChunk single cap).bytes gone' history ∧
      (cutChunk single cap).bytes ≤ cap ∧ (cutChunk single cap).Within single := by
  obtain ⟨lost, kept, htext, htail, hfits⟩ := utf8Tail_spec single.text cap
  have hsize := h.sizes single List.mem_cons_self
  have hstart : single.start = (encode gone).length := h.adjacent.1
  have hdecode : Utf16.decode (cutChunk single cap).text = kept := by
    simp only [cutChunk, htail, Utf16.decode_encode]
  have hbytes : (cutChunk single cap).bytes = (encode kept).length := by
    simp only [cutChunk, htail]
  have hsingle : single.bytes = (encode lost).length + (encode kept).length := by
    rw [hsize, textBytes, htext, Utf8.encode_append, List.length_append]
  have hcut : (cutChunk single cap).start = (encode (gone ++ lost)).length := by
    have heq : (cutChunk single cap).start =
        single.start + (single.bytes - (encode kept).length) := by
      simp only [cutChunk, htail]
    rw [heq, Utf8.encode_append, List.length_append]
    omega
  have hhistory : history = gone ++ lost ++ kept := by
    rw [h.pieces, characters_cons, htext]
    simp [characters]
  refine ⟨gone ++ lost, List.prefix_append _ _, ⟨?_, ⟨hcut, ?_⟩, ?_, ?_⟩, ?_, ?_⟩
  · rw [characters_cons, hdecode, hhistory]
    simp [characters]
  · show (cutChunk single cap).start + (cutChunk single cap).bytes = _
    rw [hcut, hbytes, hhistory, Utf8.encode_append (gone ++ lost), List.length_append]
  · intro chunk hchunk
    rw [List.mem_singleton.mp hchunk, hbytes, textBytes, hdecode]
  · simp
  · rw [hbytes]
    exact hfits
  · unfold RingChunk.Within
    rw [Utf8.encode_append, List.length_append] at hcut
    omega

/-- What trimming leaves. -/
structure Trimmed (ring ring' : OutputRing) (cap : ℕ) (history : List Char) : Prop where
  holds : Holds ring' history
  fits : ring'.retainedBytes ≤ cap
  total : ring'.total = ring.total
  earliest : ring.earliest ≤ ring'.earliest
  within : ∀ chunk' ∈ ring'.chunks, ∃ chunk ∈ ring.chunks, chunk'.Within chunk

theorem length_encode_le {front text : List Char} (h : front <+: text) :
    (encode front).length ≤ (encode text).length := by
  obtain ⟨back, rfl⟩ := h
  rw [Utf8.encode_append, List.length_append]
  omega

theorem Holds.trim (h : Holds ring history) (cap : ℕ) :
    Trimmed ring (ring.trim cap) cap history := by
  obtain ⟨gone, hearliest, hcovers⟩ := h.covers
  obtain ⟨gone', hpre, hdropped, hfits⟩ := hcovers.dropHeads cap
  have hkeep : ∀ {chunks : List RingChunk} {retained : ℕ} {front : List Char},
      gone <+: front → Covers chunks retained front history → retained ≤ cap →
      (∀ chunk' ∈ chunks, ∃ chunk ∈ ring.chunks, chunk'.Within chunk) →
      Trimmed ring { ring with
        chunks := chunks
        retainedBytes := retained
        earliest := (chunks.head?.map (·.start)).getD ring.total } cap history := by
    intro chunks retained front hfront hfrontCovers hretained hwithin
    have hhead : (chunks.head?.map (·.start)).getD ring.total = (encode front).length := by
      rw [h.total]
      exact hfrontCovers.adjacent.head
    refine ⟨⟨h.total, front, hhead, hfrontCovers⟩, hretained, rfl, ?_, hwithin⟩
    show ring.earliest ≤ _
    rw [hhead, hearliest]
    exact length_encode_le hfront
  have hmem : ∀ chunk ∈ (dropHeads cap ring.chunks ring.retainedBytes).1, chunk ∈ ring.chunks :=
    fun _ hchunk => mem_of_dropHeads hchunk
  unfold OutputRing.trim
  generalize dropHeads cap ring.chunks ring.retainedBytes = dropped at hdropped hfits hmem
  obtain ⟨chunks, retained⟩ := dropped
  dsimp only at hdropped hfits hmem ⊢
  have hsame : ∀ chunk' ∈ chunks, ∃ chunk ∈ ring.chunks, chunk'.Within chunk :=
    fun chunk hchunk => ⟨chunk, hmem chunk hchunk, le_refl _, rfl⟩
  split
  · next single =>
      by_cases hcap : cap < single.bytes
      · rw [if_pos hcap]
        obtain ⟨front, hfront, hcut, hcutFits, hwithin⟩ := hdropped.cut cap
        refine hkeep (hpre.trans hfront) hcut hcutFits ?_
        intro chunk hchunk
        rw [List.mem_singleton.mp hchunk]
        exact ⟨single, hmem single List.mem_cons_self, hwithin⟩
      · rw [if_neg hcap]
        refine hkeep hpre hdropped ?_ hsame
        have hretained : retained = single.bytes := by simpa using hdropped.retained
        omega
  · next hmany =>
      refine hkeep hpre hdropped ?_ hsame
      rcases hfits with hfits | hlength
      · exact hfits
      · cases chunks with
        | nil =>
          have hzero : retained = 0 := hdropped.retained
          omega
        | cons chunk rest =>
          cases rest with
          | nil => exact absurd rfl (hmany chunk)
          | cons next rest => simp at hlength

/-- What appending leaves: an empty text changes nothing. -/
theorem Holds.append (h : Holds ring history) (text : List UInt16) (options : JobAppendOptions)
    (cap : ℕ) :
    Holds (ring.append text options cap).1 (history ++ Utf16.decode text) ∧
      ring.total ≤ (ring.append text options cap).1.total ∧
      ring.earliest ≤ (ring.append text options cap).1.earliest ∧
      (text ≠ [] → (ring.append text options cap).1.retainedBytes ≤ cap) := by
  unfold OutputRing.append
  by_cases hempty : text = []
  · subst hempty
    simp only [List.length_nil, if_true]
    refine ⟨?_, le_refl _, le_refl _, fun hne => absurd rfl hne⟩
    rw [Utf16.decode, List.append_nil]
    exact h
  · rw [if_neg (mt List.length_eq_zero_iff.mp hempty)]
    have htrimmed := (h.push text options).trim cap
    refine ⟨htrimmed.holds, ?_, htrimmed.earliest, fun _ => htrimmed.fits⟩
    rw [htrimmed.total]
    exact Nat.le_add_right _ _

end OutputRing

end TianmaCoder
