import TianmaCoder.Lsp.Framing

/-!
# Framing and the cut into chunks

The messages that a push has taken off are lost when a later frame of the same push is refused, and
the header limit is checked on whatever is buffered, also while a separator is arriving. Both show
how the bytes were cut. They are the only ways in which they do, and framed messages meet neither.

## Main definitions

* `ChunksUnseen` — feeding the bytes in any chunks decodes them.
* `FramesSteady` — no message precedes a refused frame, and no separator ends past the limit.

## Main results

* `chunksUnseen_iff` — the streams whose cut does not show, and framed messages among them.
-/

namespace TianmaCoder

open MessageDecoder

variable {Message : Type*} {runtime : FramingRuntime Message} {limit : Number}

/-- In whatever chunks the bytes are fed, every message that is complete before the first refused
frame is delivered, and then the decoder waits with what is left, or it has failed. -/
def ChunksUnseen (runtime : FramingRuntime Message) (limit : Number) (bytes : List UInt8) : Prop :=
  ∀ chunks : List (List UInt8), chunks.flatten = bytes →
    (decoder runtime limit).feed [] chunks = (decoder runtime limit).decode bytes

/-- The first frame of some bytes is refused. -/
def Refused (runtime : FramingRuntime Message) (limit : Number) (bytes : List UInt8) : Prop :=
  ∃ error, next runtime limit bytes = .error error

/-- No message precedes a refused frame, and a separator that belongs to no refused frame ends at
most one byte past the header limit. -/
structure FramesSteady (runtime : FramingRuntime Message) (limit : Number) (bytes : List UInt8) :
    Prop where
  first : ∀ messages left, (decoder runtime limit).Reads bytes messages left →
    Refused runtime limit left → messages = []
  separated : ∀ messages left separator, (decoder runtime limit).Reads bytes messages left →
    ¬ Refused runtime limit left → firstIndex HEADER_SEPARATOR left = some separator →
      separator + 3 ≤ MAX_HEADER_BYTES

theorem failed_iff {bytes : List UInt8} :
    (decoder runtime limit).next bytes = .failed ↔ Refused runtime limit bytes := by
  unfold decoder Refused
  dsimp only
  split
  · next hnext => simp [hnext]
  · next hnext => simp [hnext]
  · next error hnext => simp [hnext]

/-! ## The header limit -/

/-- Without a separator only the length of the buffer counts. -/
theorem refused_of_none {bytes : List UInt8} (h : firstIndex HEADER_SEPARATOR bytes = none) :
    Refused runtime limit bytes ↔ MAX_HEADER_BYTES < bytes.length := by
  unfold Refused next
  simp only [h]
  by_cases hlong : MAX_HEADER_BYTES < bytes.length
  · simp [hlong]
  · simp [hlong]

/-- A frame that is refused behind its separator is refused whatever follows. -/
theorem Refused.append {front : List UInt8} {separator : ℕ}
    (hindex : firstIndex HEADER_SEPARATOR front = some separator)
    (h : Refused runtime limit front) (more : List UInt8) : Refused runtime limit (front ++ more) := by
  have hfour : HEADER_SEPARATOR.length = 4 := rfl
  have hwithin := firstIndex_le hindex
  rw [hfour] at hwithin
  obtain ⟨error, herror⟩ := h
  unfold Refused next
  unfold next at herror
  rw [firstIndex_append hindex more]
  rw [hindex] at herror
  dsimp only at herror ⊢
  by_cases hshort : MAX_HEADER_BYTES < separator
  · exact ⟨_, if_pos hshort⟩
  · rw [if_neg hshort] at herror ⊢
    rw [List.take_append_of_le_length (by omega)]
    split at herror
    · exact ⟨_, rfl⟩
    · next length hheader =>
        rw [hfour] at herror ⊢
        split at herror
        · cases herror
        · next hwhole =>
            have hlonger : ¬(front ++ more).length < separator + 4 + length := by
              rw [List.length_append]
              omega
            rw [if_neg hlonger, List.take_append_of_le_length (by omega)]
            split at herror
            · cases herror
            · exact ⟨_, rfl⟩

/-- What is refused in part is refused as a whole exactly where separators keep off the limit. -/
theorem lasting_iff {bytes : List UInt8} :
    (∀ messages left front, (decoder runtime limit).Reads bytes messages left → front <+: left →
        Refused runtime limit front → Refused runtime limit left) ↔
      ∀ messages left separator, (decoder runtime limit).Reads bytes messages left →
        ¬ Refused runtime limit left → firstIndex HEADER_SEPARATOR left = some separator →
          separator + 3 ≤ MAX_HEADER_BYTES := by
  have hfour : HEADER_SEPARATOR.length = 4 := rfl
  constructor
  · intro hlasting messages left separator hreads hnot hindex
    by_contra hlate
    have hwithin := firstIndex_le hindex
    rw [hfour] at hwithin
    -- one byte past the limit the separator is not complete yet
    refine hnot (hlasting messages left (left.take (MAX_HEADER_BYTES + 1)) hreads
      (List.take_prefix _ _) ?_)
    have hlength : (left.take (MAX_HEADER_BYTES + 1)).length = MAX_HEADER_BYTES + 1 := by
      rw [List.length_take]
      omega
    refine (refused_of_none ?_).mpr (by omega)
    by_contra hsome
    obtain ⟨early, hearly⟩ := Option.ne_none_iff_exists'.mp hsome
    have hwhole := firstIndex_append hearly (left.drop (MAX_HEADER_BYTES + 1))
    rw [List.take_append_drop, hindex, Option.some.injEq] at hwhole
    have hend := firstIndex_le hearly
    rw [hfour] at hend
    omega
  · intro hseparated messages left front hreads hfront hrefused
    obtain ⟨more, rfl⟩ := hfront
    cases hindex : firstIndex HEADER_SEPARATOR front with
    | some separator => exact hrefused.append hindex more
    | none =>
      have hlong := (refused_of_none hindex).mp hrefused
      by_contra hnot
      cases hwhole : firstIndex HEADER_SEPARATOR (front ++ more) with
      | none =>
        refine hnot ((refused_of_none hwhole).mpr ?_)
        rw [List.length_append]
        omega
      | some separator =>
        have hearly := hseparated messages _ separator hreads hnot hwhole
        have hsome := firstIndex_of_append hwhole (by rw [hfour]; omega)
        rw [hindex] at hsome
        cases hsome

theorem chunksUnseen_iff_steady (runtime : FramingRuntime Message) (limit : Number)
    (bytes : List UInt8) : ChunksUnseen runtime limit bytes ↔ FramesSteady runtime limit bytes := by
  unfold ChunksUnseen
  rw [Decoder.feed_eq_decode_iff]
  simp only [failed_iff]
  rw [lasting_iff]
  constructor
  · rintro ⟨hfirst, hseparated⟩
    exact ⟨hfirst, hseparated⟩
  · intro h
    exact ⟨h.first, h.separated⟩

/-! ## Framed messages -/

/-- The body of a message is within the limit, and as long as a buffer can be. -/
structure WithinLimit (runtime : FramingRuntime Message) (limit : Number) (message : Message) :
    Prop where
  limit : limit.lt (.ofNat (messageBody runtime message).length) = false
  safe : ((messageBody runtime message).length : ℤ) ≤ Number.maxSafeInteger

/-- A text of ASCII characters is read back. -/
theorem asciiText_asciiBytes {text : List Char} (h : ∀ c ∈ text, c.toNat < 128) :
    asciiText (asciiBytes text) = text := by
  induction text with
  | nil => rfl
  | cons c text ih =>
    have hc := h c List.mem_cons_self
    have hread : Char.ofNat ((UInt8.ofNat c.toNat).toNat % 128) = c := by
      rw [UInt8.toNat_ofNat', Nat.mod_mod_of_dvd _ (by decide), Nat.mod_eq_of_lt hc]
      exact Char.ofNat_toNat c
    have hcons : asciiText (asciiBytes (c :: text)) =
        Char.ofNat ((UInt8.ofNat c.toNat).toNat % 128) :: asciiText (asciiBytes text) := rfl
    rw [hcons, hread, ih fun d hd => h d (List.mem_cons_of_mem _ hd)]

/-- A digit is an ASCII character and no white space. -/
theorem digit_facts {c : Char} (h : c.isDigit = true) :
    c.toNat < 128 ∧ c ≠ '\r' ∧ Text.isSpace c = false := by
  have hrange : 48 ≤ c.toNat ∧ c.toNat ≤ 57 := by
    simp only [Char.isDigit, Bool.and_eq_true, decide_eq_true_eq] at h
    exact ⟨h.1, h.2⟩
  refine ⟨by omega, ?_, ?_⟩
  · rintro rfl
    simp at hrange
  · simp only [Text.isSpace, Bool.or_eq_false_iff, Bool.and_eq_false_iff, decide_eq_false_iff_not,
      beq_eq_false_iff_ne]
    omega

theorem digits_isDigit {n : ℕ} {c : Char} (h : c ∈ Nat.toDigits 10 n) : c.isDigit = true :=
  Nat.isDigit_of_mem_toDigits (by decide) (by decide) h

theorem header_chars {n : ℕ} {c : Char} (h : c ∈ contentLengthHeader n) :
    c.toNat < 128 ∧ c ≠ '\r' := by
  rcases List.mem_append.mp h with h | h
  · have hall : ∀ c ∈ "Content-Length: ".toList, c.toNat < 128 ∧ c ≠ '\r' := by simp
    exact hall c h
  · have hfacts := digit_facts (digits_isDigit h)
    exact ⟨hfacts.1, hfacts.2.1⟩

theorem splitLines_of_not_mem {text : List Char} (h : '\r' ∉ text) : splitLines text = [text] := by
  induction text with
  | nil => rfl
  | cons c text ih =>
    rw [List.mem_cons, not_or] at h
    unfold splitLines
    split
    · cases ‹_ :: _ = _›
    · next rest heq =>
        cases heq
        exact absurd rfl h.1
    · next c' rest _ heq =>
        cases heq
        rw [ih h.2]

theorem stripBoth_space {text : List Char} (h : ∀ c ∈ text, Text.isSpace c = false) :
    Text.stripBoth Text.isSpace (' ' :: text) = text := by
  have hkeep : ∀ xs : List Char, (∀ c ∈ xs, Text.isSpace c = false) →
      xs.dropWhile Text.isSpace = xs := by
    intro xs hxs
    cases xs with
    | nil => rfl
    | cons x xs => exact List.dropWhile_cons_of_neg (by simp [hxs x List.mem_cons_self])
  unfold Text.stripBoth
  have hspace : Text.isSpace ' ' = true := by decide
  rw [List.dropWhile_cons_of_pos hspace, hkeep text h, hkeep text.reverse, List.reverse_reverse]
  intro c hc
  exact h c (List.mem_reverse.mp hc)

/-- The header of a body is read as its length. -/
theorem parseContentLength_header (runtime : FramingRuntime Message) {n : ℕ}
    (hsafe : (n : ℤ) ≤ Number.maxSafeInteger) :
    parseContentLength runtime (contentLengthHeader n) = .ok n := by
  have hcr : '\r' ∉ contentLengthHeader n := fun hmem => (header_chars hmem).2 rfl
  have hcolon : ':' ∈ contentLengthHeader n := List.mem_append_left _ (by decide)
  have hname : (contentLengthHeader n).takeWhile (· ≠ ':') = "Content-Length".toList := rfl
  have hvalue : ((contentLengthHeader n).dropWhile (· ≠ ':')).drop 1 =
      ' ' :: Nat.toDigits 10 n := rfl
  have hline : contentLengthLine (contentLengthHeader n) = some (Nat.toDigits 10 n) := by
    have hspaces : Text.stripBoth Text.isSpace (' ' :: Nat.toDigits 10 n) = Nat.toDigits 10 n :=
      stripBoth_space fun c hc => (digit_facts (digits_isDigit hc)).2.2
    have hlower : (Text.stripBoth Text.isSpace "Content-Length".toList).map Char.toLower =
        "content-length".toList := by decide
    unfold contentLengthLine
    rw [if_neg (not_not.mpr hcolon), hname, hvalue, hspaces]
    dsimp only
    rw [if_neg (not_not.mpr hlower)]
  unfold parseContentLength
  rw [splitLines_of_not_mem hcr]
  simp only [List.findSome?_cons, hline, Option.map_some, runtime.toNumber_digits n hsafe]
  simp [Number.ofNat, countOf]

/-- A framed message in front is taken off; its separator is near the front. -/
theorem next_encodeMessage {message : Message} (h : WithinLimit runtime limit message)
    (rest : List UInt8) :
    next runtime limit (encodeMessage runtime message ++ rest) =
        .ok (some (runtime.roundTrip message, rest)) ∧
      ∃ separator, separator + 3 ≤ MAX_HEADER_BYTES ∧
        firstIndex HEADER_SEPARATOR (encodeMessage runtime message ++ rest) = some separator := by
  have hsafe := h.safe
  have hparse := runtime.parse_stringify message
  have hwithin := h.limit
  have hbody : Utf8.decode (messageBody runtime message) = runtime.stringify message :=
    Utf8.decode_encode _
  generalize hlength : (messageBody runtime message).length = length at hsafe hwithin
  have hheaderBytes : (asciiBytes (contentLengthHeader length)).length =
      16 + (Nat.toDigits 10 length).length := by
    unfold asciiBytes contentLengthHeader
    rw [List.length_map, List.length_append]
    rfl
  have hdigits : (Nat.toDigits 10 length).length ≤ 16 := by
    rw [Nat.length_toDigits_le_iff (by decide) (by decide)]
    unfold Number.maxSafeInteger at hsafe
    omega
  have hcr : (13 : UInt8) ∉ asciiBytes (contentLengthHeader length) := by
    intro hmem
    obtain ⟨c, hc, heq⟩ := List.mem_map.mp hmem
    obtain ⟨hsmall, hne⟩ := header_chars hc
    have hnat := congrArg UInt8.toNat heq
    rw [UInt8.toNat_ofNat'] at hnat
    have hthirteen : c.toNat = 13 := by
      have hconst : (13 : UInt8).toNat = 13 := rfl
      omega
    refine hne ?_
    rw [← Char.ofNat_toNat c, hthirteen]
  have hbytes : encodeMessage runtime message ++ rest =
      asciiBytes (contentLengthHeader length) ++ HEADER_SEPARATOR ++
        (messageBody runtime message ++ rest) := by
    unfold encodeMessage
    dsimp only
    rw [hlength, List.append_assoc]
  have hindex : firstIndex HEADER_SEPARATOR (encodeMessage runtime message ++ rest) =
      some (asciiBytes (contentLengthHeader length)).length := by
    rw [hbytes]
    exact firstIndex_separator hcr _
  have hend : (asciiBytes (contentLengthHeader length) ++ HEADER_SEPARATOR).length =
      (asciiBytes (contentLengthHeader length)).length + 4 := by
    rw [List.length_append]
    rfl
  have htake : (encodeMessage runtime message ++ rest).take
      ((asciiBytes (contentLengthHeader length)).length + 4 + length) =
        asciiBytes (contentLengthHeader length) ++ HEADER_SEPARATOR ++
          messageBody runtime message := by
    rw [hbytes, ← List.append_assoc, ← hend, ← hlength, ← List.length_append, List.take_left]
  have hdrop : (encodeMessage runtime message ++ rest).drop
      ((asciiBytes (contentLengthHeader length)).length + 4 + length) = rest := by
    rw [hbytes, ← List.append_assoc, ← hend, ← hlength, ← List.length_append, List.drop_left]
  have hshort : (asciiBytes (contentLengthHeader length)).length + 3 ≤ MAX_HEADER_BYTES := by
    have hmax : MAX_HEADER_BYTES = 65536 := rfl
    omega
  refine ⟨next_ready_iff.mpr ⟨(asciiBytes (contentLengthHeader length)).length, length, ?_⟩,
    _, hshort, hindex⟩
  constructor
  · exact hindex
  · omega
  · rw [hbytes, List.append_assoc, List.take_left, asciiText_asciiBytes]
    · unfold headerLength
      rw [parseContentLength_header runtime hsafe]
      simp [hwithin]
    · intro c hc
      exact (header_chars hc).1
  · rw [hbytes, List.length_append, hend, List.length_append, hlength]
    omega
  · rw [htake, ← hend, List.drop_left, hbody, hparse]
  · exact hdrop.symm

section

variable {messages : List Message} (h : ∀ message ∈ messages, WithinLimit runtime limit message)
include h

/-- What is left of framed messages is the framed messages that are left. -/
theorem reads_messages {read : List Message}
    {left : List UInt8}
    (hreads : (decoder runtime limit).Reads (messages.flatMap (encodeMessage runtime)) read left) :
    ∃ front back, messages = front ++ back ∧ left = back.flatMap (encodeMessage runtime) := by
  induction messages generalizing read with
  | nil =>
    cases hreads with
    | done => exact ⟨[], [], rfl, rfl⟩
    | ready hnext _ => cases hnext
  | cons message messages ih =>
    have hmessage := next_encodeMessage (h message List.mem_cons_self)
      (messages.flatMap (encodeMessage runtime))
    cases hreads with
    | done => exact ⟨[], message :: messages, rfl, rfl⟩
    | ready hnext hrest =>
      have hsame : (decoder runtime limit).next
          ((message :: messages).flatMap (encodeMessage runtime)) =
            .ready (runtime.roundTrip message) (messages.flatMap (encodeMessage runtime)) := by
        rw [List.flatMap_cons]
        unfold decoder
        dsimp only
        rw [hmessage.1]
      rw [hsame] at hnext
      cases hnext
      obtain ⟨front, back, hmessages, hleft⟩ :=
        ih (fun m hm => h m (List.mem_cons_of_mem _ hm)) hrest
      exact ⟨message :: front, back, by rw [hmessages, List.cons_append], hleft⟩

theorem decode_messages :
    (decoder runtime limit).decode (messages.flatMap (encodeMessage runtime)) =
      (messages.map runtime.roundTrip, some []) := by
  induction messages with
  | nil => rfl
  | cons message messages ih =>
    have hmessage := next_encodeMessage (h message List.mem_cons_self)
      (messages.flatMap (encodeMessage runtime))
    have hnext : (decoder runtime limit).next
        ((message :: messages).flatMap (encodeMessage runtime)) =
          .ready (runtime.roundTrip message) (messages.flatMap (encodeMessage runtime)) := by
      rw [List.flatMap_cons]
      unfold decoder
      dsimp only
      rw [hmessage.1]
    rw [Decoder.decode_ready hnext, ih fun m hm => h m (List.mem_cons_of_mem _ hm)]
    rfl

/-- No cut shows in framed messages. -/
theorem framesSteady_messages :
    FramesSteady runtime limit (messages.flatMap (encodeMessage runtime)) := by
  have hleft : ∀ read left, (decoder runtime limit).Reads
      (messages.flatMap (encodeMessage runtime)) read left →
      ¬ Refused runtime limit left ∧ ∀ separator, firstIndex HEADER_SEPARATOR left = some separator →
        separator + 3 ≤ MAX_HEADER_BYTES := by
    intro read left hreads
    obtain ⟨front, back, hmessages, rfl⟩ := reads_messages h hreads
    cases back with
    | nil =>
      refine ⟨?_, ?_⟩
      · rintro ⟨error, herror⟩
        cases herror
      · intro separator hindex
        cases hindex
    | cons message back =>
      have hmem : message ∈ messages := by
        rw [hmessages]
        exact List.mem_append_right _ List.mem_cons_self
      obtain ⟨hnext, separator, hearly, hindex⟩ :=
        next_encodeMessage (h message hmem) (back.flatMap (encodeMessage runtime))
      rw [List.flatMap_cons]
      refine ⟨?_, ?_⟩
      · rintro ⟨error, herror⟩
        rw [hnext] at herror
        cases herror
      · intro other hother
        rw [hindex] at hother
        cases hother
        exact hearly
  constructor
  · intro read left hreads hrefused
    exact absurd hrefused (hleft read left hreads).1
  · intro read left separator hreads _ hindex
    exact (hleft read left hreads).2 separator hindex

end

/-- The cut into chunks does not show exactly when no message precedes a refused frame and no
separator of another frame ends past the header limit; and framed messages within the limit are
decoded in any chunks, with nothing left. -/
theorem chunksUnseen_iff (runtime : FramingRuntime Message) (limit : Number) :
    (∀ bytes, ChunksUnseen runtime limit bytes ↔ FramesSteady runtime limit bytes) ∧
      ∀ messages : List Message, (∀ message ∈ messages, WithinLimit runtime limit message) →
        ∀ chunks : List (List UInt8),
          chunks.flatten = messages.flatMap (encodeMessage runtime) →
            (decoder runtime limit).feed [] chunks = (messages.map runtime.roundTrip, some []) := by
  refine ⟨chunksUnseen_iff_steady runtime limit, ?_⟩
  intro messages h chunks hchunks
  have hunseen := (chunksUnseen_iff_steady runtime limit _).mpr (framesSteady_messages h)
  rw [hunseen chunks hchunks, decode_messages h]

/-- A server cannot make the buffer grow: whatever arrives, in whatever chunks, the bytes that are
held between pushes are fewer than a header, its separator and a body within the limits. -/
theorem buffered_bounded (runtime : FramingRuntime Message) (limit : ℕ) (chunks : List (List UInt8))
    {messages : List Message} {left : List UInt8}
    (h : (decoder runtime (.ofNat limit)).feed [] chunks = (messages, some left)) :
    left.length < MAX_HEADER_BYTES + HEADER_SEPARATOR.length + limit := by
  have hnone : next runtime (.ofNat limit) left = .ok none := by
    have hwaiting := Decoder.feed_waiting (decoder runtime (.ofNat limit)).empty h
    unfold decoder at hwaiting
    dsimp only at hwaiting
    split at hwaiting
    · assumption
    · cases hwaiting
    · cases hwaiting
  have hfour : HEADER_SEPARATOR.length = 4 := rfl
  unfold next at hnone
  split at hnone
  · -- an unterminated header
    split at hnone
    · cases hnone
    · omega
  · next separator _ =>
      split at hnone
      · cases hnone
      · split at hnone
        · cases hnone
        · next length hlength =>
            have hwithin : length ≤ limit := by
              unfold headerLength at hlength
              split at hlength
              · cases hlength
              · split at hlength
                · cases hlength
                · next hnot =>
                    cases hlength
                    rw [Number.ofNat_eq, Number.ofNat_eq, Number.lt_int, decide_eq_true_eq] at hnot
                    omega
            dsimp only at hnone
            split at hnone
            · omega
            · split at hnone <;> cases hnone

/-! ## A message before a refused frame -/

/-- A runtime for messages that are counts. -/
def countRuntime : FramingRuntime ℕ where
  stringify n := Nat.toDigits 10 n
  parse text :=
    if text ≠ [] ∧ text.all Char.isDigit then .ok (Nat.ofDigitChars 10 text 0)
    else .error "Unexpected token"
  roundTrip n := n
  parse_stringify n := by
    have hall : (Nat.toDigits 10 n).all Char.isDigit = true :=
      List.all_eq_true.mpr fun c hc => digits_isDigit hc
    rw [if_pos ⟨Nat.toDigits_ne_nil, hall⟩, Nat.ofDigitChars_toDigits (by decide) (by decide)]
  toNumber text :=
    if text.all Char.isDigit then .ofNat (Nat.ofDigitChars 10 text 0) else .nan
  toNumber_digits n _ := by
    have hall : (Nat.toDigits 10 n).all Char.isDigit = true :=
      List.all_eq_true.mpr fun c hc => digits_isDigit hc
    rw [if_pos hall, Nat.ofDigitChars_toDigits (by decide) (by decide)]

/-- A message and the start of another, in two chunks. -/
theorem buffered_bounded_count : let next := asciiBytes "Content-".toList
    (decoder countRuntime (.ofNat 100)).feed [] [encodeMessage countRuntime 1, next] =
        ([1], some next) ∧
      next.length < MAX_HEADER_BYTES + HEADER_SEPARATOR.length + 100 := by
  intro next
  have hfeed : (decoder countRuntime (.ofNat 100)).feed []
      [encodeMessage countRuntime 1, next] = ([1], some next) := by decide +kernel
  exact ⟨hfeed, buffered_bounded countRuntime 100 _ hfeed⟩

/-- The message is delivered when it arrives by itself and lost when the header without a length
arrives with it. -/
theorem refused_frame_loses_message : let refused := HEADER_SEPARATOR
    let bytes := encodeMessage countRuntime 1 ++ refused
    (decoder countRuntime (.finite 100)).feed [] [encodeMessage countRuntime 1, refused] =
        ([1], none) ∧
      (decoder countRuntime (.finite 100)).feed [] [bytes] = ([], none) ∧
      ¬ ChunksUnseen countRuntime (.finite 100) bytes := by
  intro refused bytes
  have hsplit : (decoder countRuntime (.finite 100)).feed []
      [encodeMessage countRuntime 1, refused] = ([1], none) := by decide +kernel
  have hwhole : (decoder countRuntime (.finite 100)).feed [] [bytes] = ([], none) := by
    decide +kernel
  refine ⟨hsplit, hwhole, ?_⟩
  intro hunseen
  have hone := hunseen [bytes] (by simp)
  have htwo := hunseen [encodeMessage countRuntime 1, refused] (by simp [bytes])
  rw [← htwo, hsplit, hwhole] at hone
  cases hone

end TianmaCoder
