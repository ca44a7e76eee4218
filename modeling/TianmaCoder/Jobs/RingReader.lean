import TianmaCoder.Jobs.OutputRing

/-!
# Reading the output of a job

A reader polls the ring from the offset that its last read gave it. Offsets that were assigned keep
naming the same bytes, chunks are cut only in front, and a read ends where the output ends: the
reader never gets a byte twice, and it misses one only where a read says so.

## Main definitions

* `RingAction`, `Observed` — a ring that is written, trimmed and polled.
* `RingSound` — what holds of the ring and of its reader after a run.

## Main results

* `ringSound` — it holds after every run.
-/

namespace TianmaCoder

open Utf8 (encode)
open OutputRing

/-! ## Runs -/

/-- One call on the ring, or one poll of its reader. -/
inductive RingAction where
  | append (text : List UInt16) (options : JobAppendOptions) (cap : ℕ)
  | trim (cap : ℕ)
  | poll

/-- One read: the ring as it was, and the offset read from. -/
structure RingPoll where
  ring : OutputRing
  offset : ℕ

def RingPoll.read (poll : RingPoll) : JobOutputRead := poll.ring.readFrom poll.offset

/-- A ring and a reader of it, with the reads so far. -/
structure Observed where
  ring : OutputRing
  offset : ℕ
  polls : List RingPoll

namespace Observed

def step (observed : Observed) : RingAction → Observed
  | .append text options cap =>
    { observed with ring := (observed.ring.append text options cap).1 }
  | .trim cap => { observed with ring := observed.ring.trim cap }
  | .poll =>
    { observed with
      offset := (observed.ring.readFrom observed.offset).next
      polls := observed.polls ++ [⟨observed.ring, observed.offset⟩] }

/-- A run from an empty ring, with a reader that starts at some offset. -/
def run (start : ℕ) (actions : List RingAction) : Observed :=
  actions.foldl step ⟨OutputRing.empty, start, []⟩

theorem run_snoc (start : ℕ) (actions : List RingAction) (action : RingAction) :
    run start (actions ++ [action]) = (run start actions).step action := by
  simp [run]

end Observed

/-- The text that an action appends. -/
def RingAction.text : RingAction → List UInt16
  | .append text _ _ => text
  | _ => []

/-- The characters appended by a run. -/
def appendedText (actions : List RingAction) : List Char :=
  actions.flatMap fun action => Utf16.decode action.text

/-- The bytes of all appended texts. -/
def appendedBytes (actions : List RingAction) : List UInt8 :=
  actions.flatMap fun action => textBytes action.text

/-- The cap of the last call that trimmed: every call but an append of the empty text. -/
def lastCap (actions : List RingAction) : Option ℕ :=
  actions.foldl (fun cap action =>
    match action with
    | .append text _ next => if text = [] then cap else some next
    | .trim next => some next
    | .poll => cap) none

/-- The cap of the last call. -/
def lastCalledCap (actions : List RingAction) : Option ℕ :=
  actions.foldl (fun cap action =>
    match action with
    | .append _ _ next => some next
    | .trim next => some next
    | .poll => cap) none

/-- The bytes of a chunk with their offsets. -/
def JobChunk.located (chunk : JobChunk) : List (UInt8 × ℕ) :=
  (textBytes chunk.text).zipIdx chunk.start

/-- The bytes that a read gives, with their offsets. -/
def JobOutputRead.located (read : JobOutputRead) : List (UInt8 × ℕ) :=
  read.chunks.flatMap JobChunk.located

/-- The bytes that a reader has received. -/
def Observed.received (observed : Observed) : List (UInt8 × ℕ) :=
  observed.polls.flatMap fun poll => poll.read.located

/-- A byte that was assigned an offset and is not retained. -/
def OutputRing.Evicted (ring : OutputRing) (offset : ℕ) : Prop :=
  offset < ring.total ∧
    ∀ chunk ∈ ring.chunks, ¬(chunk.start ≤ offset ∧ offset < chunk.start + chunk.bytes)

/-- What holds of a ring and its reader after a run. -/
structure RingSound (start : ℕ) (actions : List RingAction) (observed : Observed) : Prop where
  /-- The chunks lie side by side and cover what is retained. -/
  adjacent : Adjacent observed.ring.earliest observed.ring.chunks observed.ring.total
  total : observed.ring.total = (appendedBytes actions).length
  /-- They hold the bytes appended from `earliest` on. -/
  bytes : observed.ring.chunks.flatMap (fun chunk => textBytes chunk.text) =
    (appendedBytes actions).drop observed.ring.earliest
  sizes : ∀ chunk ∈ observed.ring.chunks, chunk.bytes = (textBytes chunk.text).length
  retained : observed.ring.retainedBytes = (observed.ring.chunks.map (·.bytes)).sum
  capped : ∀ cap, lastCap actions = some cap → observed.ring.retainedBytes ≤ cap
  /-- A chunk starts between two characters of the output. -/
  whole : ∀ chunk ∈ observed.ring.chunks, ∃ front back,
    (appendedBytes actions).take chunk.start = encode front ∧
      (appendedBytes actions).drop chunk.start = encode back
  /-- The reader gets the bytes in order, each at most once, under their offsets. -/
  ordered : (observed.received.map Prod.snd).Pairwise (· < ·)
  named : ∀ located ∈ observed.received, (appendedBytes actions)[located.2]? = some located.1
  /-- What it has passed without a byte was reported lossy. -/
  missed : ∀ offset, start ≤ offset → offset < observed.offset →
    offset ∉ observed.received.map Prod.snd →
      ∃ poll ∈ observed.polls, poll.read.lossy = true ∧ poll.offset ≤ offset ∧
        offset < poll.ring.earliest
  lossy : ∀ poll ∈ observed.polls,
    (poll.read.lossy = true ↔ ∃ offset, poll.offset ≤ offset ∧ poll.ring.Evicted offset)

/-! ## One read -/

/-- No chunk reaches past an offset from before it. -/
def Boundary (chunks : List RingChunk) (offset : ℕ) : Prop :=
  ∀ chunk ∈ chunks, chunk.start + chunk.bytes ≤ offset ∨ offset ≤ chunk.start

variable {chunks : List RingChunk} {first last : ℕ}

/-- The bytes of chunks that lie side by side, with their offsets. -/
theorem located_adjacent (h : Adjacent first chunks last)
    (hsizes : ∀ chunk ∈ chunks, chunk.bytes = (textBytes chunk.text).length) :
    chunks.flatMap (fun chunk => (textBytes chunk.text).zipIdx chunk.start) =
      (encode (characters chunks)).zipIdx first := by
  induction chunks generalizing first with
  | nil => rfl
  | cons chunk chunks ih =>
    have hsize := hsizes chunk List.mem_cons_self
    rw [List.flatMap_cons, ih h.2 fun c hc => hsizes c (List.mem_cons_of_mem _ hc),
      characters_cons, Utf8.encode_append, List.zipIdx_append, h.1, hsize]
    rfl

/-- Chunks that lie side by side reach as far as their bytes. -/
theorem adjacent_length (h : Adjacent first chunks last)
    (hsizes : ∀ chunk ∈ chunks, chunk.bytes = (textBytes chunk.text).length) :
    first + (encode (characters chunks)).length = last := by
  induction chunks generalizing first with
  | nil => exact h
  | cons chunk chunks ih =>
    have hrest := ih h.2 fun c hc => hsizes c (List.mem_cons_of_mem _ hc)
    have hsize := hsizes chunk List.mem_cons_self
    have hstart := h.1
    rw [characters_cons, Utf8.encode_append, List.length_append]
    unfold textBytes at hsize
    omega

variable {offset : ℕ}

theorem adjacent_all_past (hfirst : offset < first) (h : Adjacent first chunks last) :
    ∀ chunk ∈ chunks, offset < chunk.start + chunk.bytes := by
  induction chunks generalizing first with
  | nil => exact List.forall_mem_nil _
  | cons chunk chunks ih =>
    have hstart := h.1
    refine List.forall_mem_cons.mpr ⟨by omega, ?_⟩
    exact ih (by omega) h.2

theorem adjacent_past (offset : ℕ) (h : Adjacent first chunks last) :
    ∃ front back mid, chunks = front ++ back ∧
      chunks.filter (fun chunk => offset < chunk.start + chunk.bytes) = back ∧
      Adjacent mid back last ∧ first ≤ mid ∧ mid ≤ last ∧
      (∀ chunk ∈ back, offset < chunk.start + chunk.bytes) ∧
      (mid ≤ offset ∨ mid = first) := by
  induction chunks generalizing first with
  | nil =>
    have hlast : first = last := h
    subst hlast
    exact ⟨[], [], first, rfl, rfl, rfl, le_refl _, le_refl _, List.forall_mem_nil _, .inr rfl⟩
  | cons chunk chunks ih =>
    obtain ⟨hstart, hrest⟩ := h
    obtain ⟨front, back, mid, hchunks, hfilter, hback, hge, hle, hpast, hmid⟩ := ih hrest
    by_cases hreach : offset < chunk.start + chunk.bytes
    · have hlater := adjacent_all_past hreach hrest
      have hkept : ∀ c ∈ chunk :: chunks, offset < c.start + c.bytes :=
        List.forall_mem_cons.mpr ⟨hreach, hlater⟩
      refine ⟨[], chunk :: chunks, first, rfl, ?_, ⟨hstart, hrest⟩, le_refl _, by omega, hkept,
        .inr rfl⟩
      rw [List.filter_eq_self]
      intro c hc
      exact decide_eq_true (hkept c hc)
    · refine ⟨chunk :: front, back, mid, by rw [hchunks, List.cons_append], ?_, hback, by omega,
        hle, hpast, .inl ?_⟩
      · rw [List.filter_cons_of_neg (by simpa using hreach), hfilter]
      · rcases hmid with hmid | hmid
        · exact hmid
        · omega

variable {history : List Char} {ring : OutputRing}

theorem read_delivers (h : ring.Holds history) (offset : ℕ) :
    ∃ first, ring.earliest ≤ first ∧ first ≤ ring.total ∧
      (first ≤ offset ∨ first = ring.earliest) ∧
      (ring.readFrom offset).located = ((encode history).drop first).zipIdx first ∧
      (Boundary ring.chunks offset → offset ≤ ring.total → offset ≤ first) := by
  obtain ⟨gone, hearliest, hcovers⟩ := h.covers
  obtain ⟨front, back, mid, hchunks, hfilter, hback, hge, hle, hpast, hmid⟩ :=
    adjacent_past offset hcovers.adjacent
  have hlocated : (ring.readFrom offset).located =
      back.flatMap fun chunk => (textBytes chunk.text).zipIdx chunk.start := by
    unfold JobOutputRead.located OutputRing.readFrom
    simp only [hfilter, List.flatMap_map]
    rfl
  have hsizes : ∀ chunk ∈ back, chunk.bytes = (textBytes chunk.text).length := by
    intro chunk hchunk
    refine hcovers.sizes chunk ?_
    rw [hchunks]
    exact List.mem_append_right _ hchunk
  rw [← h.total] at hle hback
  refine ⟨mid, by omega, hle, by omega, ?_, ?_⟩
  · rw [hlocated, located_adjacent hback hsizes]
    have hend := adjacent_length hback hsizes
    have hhistory : encode history = encode (gone ++ characters front) ++
        encode (characters back) := by
      rw [← Utf8.encode_append, List.append_assoc, hcovers.pieces, hchunks]
      unfold characters
      rw [List.flatMap_append]
    have hfront : (encode (gone ++ characters front)).length = mid := by
      have htotal := congrArg List.length hhistory
      rw [List.length_append, ← h.total] at htotal
      omega
    rw [hhistory, ← hfront, List.drop_left]
  · intro hboundary hoffset
    cases back with
    | nil =>
      have hmidTotal : mid = ring.total := hback
      omega
    | cons chunk rest =>
      have hmem : chunk ∈ ring.chunks := by
        rw [hchunks]
        exact List.mem_append_right _ List.mem_cons_self
      have hreach := hpast chunk List.mem_cons_self
      have hstart := hback.1
      rcases hboundary chunk hmem with hends | hbegins
      · omega
      · omega

section

variable (h : Adjacent first chunks last)
include h

theorem adjacent_le : first ≤ last := by
  induction chunks generalizing first with
  | nil => exact le_of_eq h
  | cons chunk chunks ih =>
    have hrest := ih h.2
    have hstart := h.1
    omega

theorem adjacent_ends :
    ∀ chunk ∈ chunks, chunk.start + chunk.bytes ≤ last := by
  induction chunks generalizing first with
  | nil => exact List.forall_mem_nil _
  | cons chunk chunks ih => exact List.forall_mem_cons.mpr ⟨adjacent_le h.2, ih h.2⟩

theorem adjacent_ge : ∀ chunk ∈ chunks, first ≤ chunk.start := by
  induction chunks generalizing first with
  | nil => exact List.forall_mem_nil _
  | cons chunk chunks ih =>
    have hstart := h.1
    refine List.forall_mem_cons.mpr ⟨hstart.ge, ?_⟩
    intro c hc
    have hge := ih h.2 c hc
    omega

theorem exists_chunk (hfirst : first ≤ offset)
    (hlast : offset < last) :
    ∃ chunk ∈ chunks, chunk.start ≤ offset ∧ offset < chunk.start + chunk.bytes := by
  induction chunks generalizing first with
  | nil =>
    have heq : first = last := h
    omega
  | cons chunk chunks ih =>
    have hstart := h.1
    by_cases hin : offset < chunk.start + chunk.bytes
    · exact ⟨chunk, List.mem_cons_self, by omega, hin⟩
    · obtain ⟨c, hc, hrange⟩ := ih h.2 (by omega)
      exact ⟨c, List.mem_cons_of_mem _ hc, hrange⟩

end

/-! ## The reader along a run -/

theorem whole_chunks {retained : ℕ} {gone : List Char} (h : Covers chunks retained gone history) :
    ∀ chunk ∈ chunks, ∃ front back, (encode history).take chunk.start = encode front ∧
      (encode history).drop chunk.start = encode back := by
  induction chunks generalizing retained gone with
  | nil => exact List.forall_mem_nil _
  | cons first chunks ih =>
    refine List.forall_mem_cons.mpr ⟨?_, ?_⟩
    · refine ⟨gone, characters (first :: chunks), ?_, ?_⟩
      · rw [h.adjacent.1, h.pieces, Utf8.encode_append, List.take_left]
      · rw [h.adjacent.1, h.pieces, Utf8.encode_append, List.drop_left]
    · exact ih h.tail

theorem evicted_iff (h : ring.Holds history) (offset : ℕ) :
    ring.Evicted offset ↔ offset < ring.earliest := by
  obtain ⟨gone, hearliest, hcovers⟩ := h.covers
  have hadjacent := hcovers.adjacent
  rw [← hearliest, ← h.total] at hadjacent
  constructor
  · rintro ⟨htotal, hnone⟩
    by_contra hge
    obtain ⟨chunk, hchunk, hin⟩ := exists_chunk hadjacent (not_lt.mp hge) htotal
    exact hnone chunk hchunk hin
  · intro hlt
    refine ⟨?_, ?_⟩
    · have hle := adjacent_le hadjacent
      omega
    · intro chunk hchunk hin
      have hge := adjacent_ge hadjacent chunk hchunk
      omega

theorem Boundary.trim (hboundary : Boundary ring.chunks offset) (h : ring.Holds history) (cap : ℕ) :
    Boundary (ring.trim cap).chunks offset := by
  intro chunk' hchunk'
  obtain ⟨chunk, hchunk, hstart, hend⟩ := (h.trim cap).within chunk' hchunk'
  rcases hboundary chunk hchunk with hbefore | hafter
  · exact .inl (by omega)
  · exact .inr (by omega)

theorem Boundary.push (hboundary : Boundary ring.chunks offset) (hoffset : offset ≤ ring.total)
    (text : List UInt16) (options : JobAppendOptions) :
    Boundary (ring.push text options).chunks offset := by
  intro chunk hchunk
  rcases List.mem_append.mp hchunk with hchunk | hchunk
  · exact hboundary chunk hchunk
  · rw [List.mem_singleton.mp hchunk]
    exact .inr hoffset

theorem Boundary.append (hboundary : Boundary ring.chunks offset) (hoffset : offset ≤ ring.total)
    (h : ring.Holds history) (text : List UInt16) (options : JobAppendOptions) (cap : ℕ) :
    Boundary (ring.append text options cap).1.chunks offset := by
  unfold OutputRing.append
  split
  · exact hboundary
  · exact (hboundary.push hoffset text options).trim (h.push text options) cap

/-- What holds of a reader and its ring while the ring holds `history`. -/
structure Reads (start : ℕ) (history : List Char) (observed : Observed) : Prop where
  ring : observed.ring.Holds history
  polled : observed.polls = [] ∧ observed.offset = start ∨
    Boundary observed.ring.chunks observed.offset ∧ observed.offset ≤ observed.ring.total
  below : ∀ located ∈ observed.received, located.2 < observed.offset
  ordered : (observed.received.map Prod.snd).Pairwise (· < ·)
  named : ∀ located ∈ observed.received, (encode history)[located.2]? = some located.1
  missed : ∀ offset, start ≤ offset → offset < observed.offset →
    offset ∉ observed.received.map Prod.snd →
      ∃ poll ∈ observed.polls, poll.read.lossy = true ∧ poll.offset ≤ offset ∧
        offset < poll.ring.earliest
  polls : ∀ poll ∈ observed.polls, ∃ before, poll.ring.Holds before

theorem reads_empty (start : ℕ) : Reads start [] ⟨OutputRing.empty, start, []⟩ where
  ring := OutputRing.holds_empty
  polled := .inl ⟨rfl, rfl⟩
  below := List.forall_mem_nil _
  ordered := List.Pairwise.nil
  named := List.forall_mem_nil _
  missed := by
    intro offset hstart hoffset
    exact absurd hoffset (not_lt.mpr hstart)
  polls := List.forall_mem_nil _

variable {observed : Observed}

/-- A call on the ring: the bytes that were assigned stay, and the reader is not moved. -/
theorem Reads.written {start : ℕ} {more : List Char} (h : Reads start history observed)
    (hring : ring.Holds (history ++ more))
    (hboundary : Boundary observed.ring.chunks observed.offset →
      observed.offset ≤ observed.ring.total → Boundary ring.chunks observed.offset) :
    Reads start (history ++ more) { observed with ring := ring } where
  ring := hring
  polled := by
    rcases h.polled with hfresh | ⟨hold, htotal⟩
    · exact .inl hfresh
    · refine .inr ⟨hboundary hold htotal, ?_⟩
      have hgrown := hring.total
      rw [Utf8.encode_append, List.length_append, ← h.ring.total] at hgrown
      dsimp only
      omega
  below := h.below
  ordered := h.ordered
  named := by
    intro located hlocated
    have hbyte := h.named located hlocated
    rw [Utf8.encode_append, List.getElem?_append_left]
    · exact hbyte
    · exact (List.getElem?_eq_some_iff.mp hbyte).1
  missed := h.missed
  polls := h.polls

/-- A poll: what is delivered begins where the last read ended, or where the ring begins. -/
theorem Reads.poll {start : ℕ} (h : Reads start history observed) :
    Reads start history (observed.step .poll) := by
  obtain ⟨first, hearliest, hfirst, hreach, hlocated, hboundary⟩ :=
    read_delivers h.ring observed.offset
  have hreceived : (observed.step .poll).received =
      observed.received ++ ((encode history).drop first).zipIdx first := by
    unfold Observed.received Observed.step
    rw [List.flatMap_append, List.flatMap_singleton]
    exact congrArg _ hlocated
  have hnew : ∀ located ∈ ((encode history).drop first).zipIdx first,
      first ≤ located.2 ∧ located.2 < observed.ring.total ∧
        (encode history)[located.2]? = some located.1 := by
    rintro ⟨byte, offset⟩ hmem
    obtain ⟨hge, hbyte⟩ := List.mem_zipIdx_iff_le_and_getElem?_sub.mp hmem
    dsimp only at hge hbyte ⊢
    rw [List.getElem?_drop, Nat.add_sub_cancel' hge] at hbyte
    refine ⟨hge, ?_, hbyte⟩
    rw [h.ring.total]
    exact (List.getElem?_eq_some_iff.mp hbyte).1
  have hpositions : (((encode history).drop first).zipIdx first).map Prod.snd =
      List.range' first (observed.ring.total - first) := by
    rw [List.zipIdx_map_snd, List.length_drop, h.ring.total]
  -- what was received before lies below what is delivered now
  have hbefore : ∀ located ∈ observed.received, located.2 < first ∧
      located.2 < observed.ring.total := by
    intro located hmem
    have hlt := h.below located hmem
    rcases h.polled with ⟨hnone, -⟩ | ⟨hold, htotal⟩
    · rw [Observed.received, hnone] at hmem
      cases hmem
    · have hge := hboundary hold htotal
      omega
  constructor
  · exact h.ring
  · refine .inr ⟨?_, le_refl _⟩
    intro chunk hchunk
    obtain ⟨gone, -, hcovers⟩ := h.ring.covers
    have hends := adjacent_ends hcovers.adjacent chunk hchunk
    rw [← h.ring.total] at hends
    exact .inl hends
  · intro located hmem
    rw [hreceived] at hmem
    rcases List.mem_append.mp hmem with hmem | hmem
    · exact (hbefore located hmem).2
    · exact (hnew located hmem).2.1
  · rw [hreceived, List.map_append, List.pairwise_append]
    refine ⟨h.ordered, ?_, ?_⟩
    · rw [hpositions]
      exact List.pairwise_lt_range'
    · intro a ha b hb
      obtain ⟨located, hmem, rfl⟩ := List.mem_map.mp ha
      obtain ⟨located', hmem', rfl⟩ := List.mem_map.mp hb
      have hlt := (hbefore located hmem).1
      have hge := (hnew located' hmem').1
      omega
  · intro located hmem
    rw [hreceived] at hmem
    rcases List.mem_append.mp hmem with hmem | hmem
    · exact h.named located hmem
    · exact (hnew located hmem).2.2
  · intro offset hstart hoffset hnot
    rw [hreceived, List.map_append, List.mem_append, not_or, hpositions] at hnot
    have hoffset' : offset < observed.ring.total := hoffset
    have hlow : offset < first := by
      by_contra hge
      refine hnot.2 (List.mem_range'_1.mpr ⟨by omega, by omega⟩)
    by_cases hpassed : offset < observed.offset
    · obtain ⟨poll, hpoll, hlossy⟩ := h.missed offset hstart hpassed hnot.1
      exact ⟨poll, List.mem_append_left _ hpoll, hlossy⟩
    · have hskipped : offset < observed.ring.earliest := by omega
      refine ⟨⟨observed.ring, observed.offset⟩, List.mem_append_right _ List.mem_cons_self, ?_,
        not_lt.mp hpassed, hskipped⟩
      refine decide_eq_true ?_
      show observed.offset < observed.ring.earliest
      omega
  · intro poll hpoll
    rcases List.mem_append.mp hpoll with hpoll | hpoll
    · exact h.polls poll hpoll
    · rw [List.mem_singleton.mp hpoll]
      exact ⟨history, h.ring⟩

theorem appendedText_snoc (actions : List RingAction) (action : RingAction) :
    appendedText (actions ++ [action]) = appendedText actions ++ Utf16.decode action.text := by
  simp [appendedText]

theorem appendedBytes_eq (actions : List RingAction) :
    appendedBytes actions = encode (appendedText actions) := by
  induction actions using List.reverseRecOn with
  | nil => rfl
  | append_singleton actions action ih =>
    rw [appendedText_snoc, Utf8.encode_append, ← ih]
    simp [appendedBytes, textBytes]

/-- One action, with what it does to the offsets and to what is retained. -/
theorem Reads.step {start : ℕ} (h : Reads start history observed) (action : RingAction) :
    Reads start (history ++ Utf16.decode action.text) (observed.step action) ∧
      observed.ring.total ≤ (observed.step action).ring.total ∧
      observed.ring.earliest ≤ (observed.step action).ring.earliest := by
  cases action with
  | append text options cap =>
    obtain ⟨hring, htotal, hearliest, -⟩ := h.ring.append text options cap
    refine ⟨h.written hring ?_, htotal, hearliest⟩
    intro hboundary hoffset
    exact hboundary.append hoffset h.ring text options cap
  | trim cap =>
    have htrimmed := h.ring.trim cap
    refine ⟨?_, htrimmed.total.ge, htrimmed.earliest⟩
    have hring : (observed.ring.trim cap).Holds (history ++ []) := by
      rw [List.append_nil]
      exact htrimmed.holds
    exact h.written hring fun hboundary _ => hboundary.trim h.ring cap
  | poll =>
    refine ⟨?_, le_refl _, le_refl _⟩
    show Reads start (history ++ []) _
    rw [List.append_nil]
    exact h.poll

theorem reads_run (start : ℕ) (actions : List RingAction) :
    Reads start (appendedText actions) (Observed.run start actions) := by
  induction actions using List.reverseRecOn with
  | nil => exact reads_empty start
  | append_singleton actions action ih =>
    rw [Observed.run_snoc, appendedText_snoc]
    exact (ih.step action).1

theorem retained_le_lastCap (start : ℕ) (actions : List RingAction) {cap : ℕ}
    (h : lastCap actions = some cap) : (Observed.run start actions).ring.retainedBytes ≤ cap := by
  induction actions using List.reverseRecOn with
  | nil => cases h
  | append_singleton actions action ih =>
    have hreads := reads_run start actions
    rw [Observed.run_snoc]
    unfold lastCap at h ih
    rw [List.foldl_append] at h
    cases action with
    | append text options next =>
      by_cases hempty : text = []
      · subst hempty
        exact ih h
      · simp only [List.foldl_cons, List.foldl_nil, if_neg hempty, Option.some.injEq] at h
        rw [← h]
        exact (hreads.ring.append text options next).2.2.2 hempty
    | trim next =>
      simp only [List.foldl_cons, List.foldl_nil, Option.some.injEq] at h
      rw [← h]
      exact (hreads.ring.trim next).fits
    | poll => exact ih h

/-- Along a run the offsets never move back, and the bytes that were assigned stay. -/
theorem run_mono (start : ℕ) (actions more : List RingAction) :
    (Observed.run start actions).ring.total ≤ (Observed.run start (actions ++ more)).ring.total ∧
      (Observed.run start actions).ring.earliest ≤
        (Observed.run start (actions ++ more)).ring.earliest ∧
      appendedBytes actions <+: appendedBytes (actions ++ more) := by
  induction more using List.reverseRecOn with
  | nil => simp
  | append_singleton more action ih =>
    obtain ⟨htotal, hearliest, hbytes⟩ := ih
    have hstep := ((reads_run start (actions ++ more)).step action).2
    rw [← List.append_assoc, Observed.run_snoc]
    refine ⟨htotal.trans hstep.1, hearliest.trans hstep.2, hbytes.trans ?_⟩
    rw [appendedBytes_eq, appendedBytes_eq, appendedText_snoc, Utf8.encode_append]
    exact List.prefix_append _ _

theorem flatMap_textBytes (chunks : List RingChunk) :
    chunks.flatMap (fun chunk => textBytes chunk.text) = encode (characters chunks) := by
  induction chunks with
  | nil => rfl
  | cons chunk chunks ih => rw [List.flatMap_cons, ih, characters_cons, Utf8.encode_append]; rfl

/-- The ring and its reader are sound after every run, and a longer run moves no offset back and
renames no byte. -/
theorem ringSound (start : ℕ) (actions more : List RingAction) :
    RingSound start actions (Observed.run start actions) ∧
      (Observed.run start actions).ring.total ≤
        (Observed.run start (actions ++ more)).ring.total ∧
      (Observed.run start actions).ring.earliest ≤
        (Observed.run start (actions ++ more)).ring.earliest ∧
      appendedBytes actions <+: appendedBytes (actions ++ more) := by
  refine ⟨?_, run_mono start actions more⟩
  have hreads := reads_run start actions
  have hbytes := appendedBytes_eq actions
  obtain ⟨gone, hearliest, hcovers⟩ := hreads.ring.covers
  have hadjacent := hcovers.adjacent
  rw [← hearliest, ← hreads.ring.total] at hadjacent
  constructor
  · exact hadjacent
  · rw [hbytes]
    exact hreads.ring.total
  · rw [flatMap_textBytes, hbytes, hcovers.pieces, Utf8.encode_append, hearliest, List.drop_left]
  · exact hcovers.sizes
  · exact hcovers.retained
  · intro cap hcap
    exact retained_le_lastCap start actions hcap
  · rw [hbytes]
    exact whole_chunks hcovers
  · exact hreads.ordered
  · rw [hbytes]
    exact hreads.named
  · exact hreads.missed
  · intro poll hpoll
    obtain ⟨history, hring⟩ := hreads.polls poll hpoll
    have hlossy : poll.read.lossy = true ↔ poll.offset < poll.ring.earliest := by
      unfold RingPoll.read OutputRing.readFrom
      exact decide_eq_true_iff
    rw [hlossy]
    constructor
    · intro hlt
      exact ⟨poll.offset, le_refl _, (evicted_iff hring _).mpr hlt⟩
    · rintro ⟨offset, hle, hevicted⟩
      have hlt := (evicted_iff hring offset).mp hevicted
      omega

/-- An append of the empty text does not trim: four bytes stay under a cap of two. -/
theorem empty_append_exceeds_cap :
    let actions := [RingAction.append [97, 98, 99, 100] {} 10, RingAction.append [] {} 2]
    lastCalledCap actions = some 2 ∧ (Observed.run 0 actions).ring.retainedBytes = 4 ∧
      ¬ ∀ cap, lastCalledCap actions = some cap →
        (Observed.run 0 actions).ring.retainedBytes ≤ cap := by
  intro actions
  have hcap : lastCalledCap actions = some 2 := rfl
  have hretained : (Observed.run 0 actions).ring.retainedBytes = 4 := by decide +kernel
  refine ⟨hcap, hretained, ?_⟩
  intro hle
  have hfour := hle 2 hcap
  omega

end TianmaCoder
