import TianmaCoder.Lib.FirstIndex
import TianmaCoder.Lib.Incremental
import TianmaCoder.Lib.Number
import TianmaCoder.Lib.Text
import TianmaCoder.Lib.Utf8

/-!
# Language-server framing

Messages of the language-server protocol are JSON bodies behind a header that declares their length.
The decoder buffers what arrives and takes off one message after the other. How JSON is written and
read, and how a number is read, are those of the runtime.

## Main definitions

* `FramingRuntime` — what the runtime provides.
* `encodeMessage` — a framed message.
* `MessageDecoder.decoder` — the decoder, fed in chunks.

## Main results

* `MessageDecoder.next_front` — a complete message does not depend on what follows it.
-/

namespace TianmaCoder

/-- What the runtime provides: `JSON.stringify`, `JSON.parse` and `Number`. What is written is read
back, and the digits of a safe integer are read as it. -/
structure FramingRuntime (Message : Type*) where
  stringify : Message → List Char
  parse : List Char → Except String Message
  /-- A message as it comes back from its text. -/
  roundTrip : Message → Message
  parse_stringify : ∀ message, parse (stringify message) = .ok (roundTrip message)
  toNumber : List Char → Number
  toNumber_digits : ∀ n : ℕ, (n : ℤ) ≤ Number.maxSafeInteger →
    toNumber (Nat.toDigits 10 n) = .ofNat n

variable {Message : Type*} (runtime : FramingRuntime Message)

/-- The header/body separator. -/
def HEADER_SEPARATOR : List UInt8 := [13, 10, 13, 10]

/-- Cap on the header section. -/
def MAX_HEADER_BYTES : ℕ := 2 ^ 16

/-- The bytes of an ASCII text. -/
def asciiBytes (text : List Char) : List UInt8 := text.map fun c => UInt8.ofNat c.toNat

/-- `buffer.toString('ascii')`: the highest bit of a byte is unset. -/
def asciiText (bytes : List UInt8) : List Char := bytes.map fun b => Char.ofNat (b.toNat % 128)

/-- The body of a message, in bytes. -/
def messageBody (message : Message) : List UInt8 := Utf8.encode (runtime.stringify message)

/-- The header of a body, without the separator. -/
def contentLengthHeader (length : ℕ) : List Char :=
  "Content-Length: ".toList ++ Nat.toDigits 10 length

/-- Encode one message as a framed buffer. -/
def encodeMessage (message : Message) : List UInt8 :=
  let body := messageBody runtime message
  asciiBytes (contentLengthHeader body.length) ++ HEADER_SEPARATOR ++ body

/-- Why a frame is refused. -/
inductive FramingError where
  | headerUnterminated
  | headerTooLong
  | lengthInvalid (line : List Char)
  | lengthMissing (headerText : List Char)
  | lengthOverLimit (contentLength : ℕ) (limit : Number)
  | bodyInvalid (message : String)

/-- `text.split('\r\n')`. -/
def splitLines : List Char → List (List Char)
  | [] => [[]]
  | '\r' :: '\n' :: rest => [] :: splitLines rest
  | c :: rest =>
    match splitLines rest with
    | [] => [[c]]
    | line :: lines => (c :: line) :: lines

/-- The value of a header line that declares the length; `none` of any other line. -/
def contentLengthLine (line : List Char) : Option (List Char) :=
  if ':' ∉ line then none
  else
    let name := Text.stripBoth Text.isSpace (line.takeWhile (· ≠ ':'))
    if name.map Char.toLower ≠ "content-length".toList then none
    else some (Text.stripBoth Text.isSpace ((line.dropWhile (· ≠ ':')).drop 1))

/-- `Number.isInteger(value) && value >= 0`. -/
def countOf : Number → Option ℕ
  | .finite q => if q.den = 1 ∧ 0 ≤ q then some q.num.toNat else none
  | .negZero => some 0
  | _ => none

/-- Read the first line that declares the length. -/
def parseContentLength (headerText : List Char) : Except FramingError ℕ :=
  match (splitLines headerText).findSome? fun line => (contentLengthLine line).map (line, ·) with
  | none => .error (.lengthMissing headerText)
  | some (line, value) =>
    match countOf (runtime.toNumber value) with
    | some length => .ok length
    | none => .error (.lengthInvalid line)

namespace MessageDecoder

/-- The checks of one header: the length of its body. -/
def headerLength (limit : Number) (headerText : List Char) : Except FramingError ℕ :=
  match parseContentLength runtime headerText with
  | .error error => .error error
  | .ok length =>
    if limit.lt (.ofNat length) then .error (.lengthOverLimit length limit) else .ok length

/-- Take the next complete message off the buffer, or report that more bytes are needed. -/
def next (limit : Number) (buffer : List UInt8) :
    Except FramingError (Option (Message × List UInt8)) :=
  match firstIndex HEADER_SEPARATOR buffer with
  | none => if MAX_HEADER_BYTES < buffer.length then .error .headerUnterminated else .ok none
  | some separator =>
    if MAX_HEADER_BYTES < separator then .error .headerTooLong
    else
      match headerLength runtime limit (asciiText (buffer.take separator)) with
      | .error error => .error error
      | .ok length =>
        let bodyStart := separator + HEADER_SEPARATOR.length
        let bodyEnd := bodyStart + length
        if buffer.length < bodyEnd then .ok none
        else
          match runtime.parse (Utf8.decode ((buffer.take bodyEnd).drop bodyStart)) with
          | .ok message => .ok (some (message, buffer.drop bodyEnd))
          | .error message => .error (.bodyInvalid message)

variable {runtime} {limit : Number} {buffer : List UInt8}

/-- Where a message is complete. -/
structure Complete (limit : Number) (buffer : List UInt8) (message : Message)
    (rest : List UInt8) (separator length : ℕ) : Prop where
  index : firstIndex HEADER_SEPARATOR buffer = some separator
  short : separator ≤ MAX_HEADER_BYTES
  header : headerLength runtime limit (asciiText (buffer.take separator)) = .ok length
  whole : separator + 4 + length ≤ buffer.length
  body : runtime.parse
    (Utf8.decode ((buffer.take (separator + 4 + length)).drop (separator + 4))) = .ok message
  rest : rest = buffer.drop (separator + 4 + length)

theorem next_ready_iff {message : Message} {rest : List UInt8} :
    next runtime limit buffer = .ok (some (message, rest)) ↔
      ∃ separator length, @Complete _ runtime limit buffer message rest separator length := by
  have hfour : HEADER_SEPARATOR.length = 4 := rfl
  constructor
  · intro h
    unfold next at h
    rw [hfour] at h
    split at h
    · split at h <;> cases h
    · next separator hindex =>
        split at h
        · cases h
        · next hshort =>
            split at h
            · cases h
            · next length hheader =>
                dsimp only at h
                split at h
                · cases h
                · next hwhole =>
                    split at h
                    · next body hbody =>
                        cases h
                        exact ⟨separator, length, hindex, by omega, hheader, by omega, hbody, rfl⟩
                    · cases h
  · rintro ⟨separator, length, hcomplete⟩
    unfold next
    simp only [hcomplete.index, hfour, if_neg (not_lt.mpr hcomplete.short), hcomplete.header,
      if_neg (not_lt.mpr hcomplete.whole), hcomplete.body, hcomplete.rest]

/-- A complete message stands in front of what follows it, whatever that is. -/
theorem next_front {message : Message} {rest : List UInt8}
    (h : next runtime limit buffer = .ok (some (message, rest))) :
    ∃ front, front ≠ [] ∧ buffer = front ++ rest ∧
      ∀ other, next runtime limit (front ++ other) = .ok (some (message, other)) := by
  obtain ⟨separator, length, hcomplete⟩ := next_ready_iff.mp h
  have hwhole := hcomplete.whole
  have hlength : (buffer.take (separator + 4 + length)).length = separator + 4 + length := by
    rw [List.length_take]
    omega
  have hsplit : buffer = buffer.take (separator + 4 + length) ++ rest := by
    rw [hcomplete.rest, List.take_append_drop]
  refine ⟨buffer.take (separator + 4 + length), ?_, hsplit, ?_⟩
  · intro hnil
    rw [hnil] at hlength
    simp only [List.length_nil] at hlength
    omega
  · intro other
    refine next_ready_iff.mpr ⟨separator, length, ?_⟩
    have hindex : firstIndex HEADER_SEPARATOR (buffer.take (separator + 4 + length)) =
        some separator := by
      have hfirst := hcomplete.index
      rw [hsplit] at hfirst
      refine firstIndex_of_append hfirst ?_
      rw [hlength]
      show separator + 4 ≤ _
      omega
    constructor
    · exact firstIndex_append hindex other
    · exact hcomplete.short
    · rw [List.take_append_of_le_length (by omega), List.take_take, Nat.min_eq_left (by omega)]
      exact hcomplete.header
    · rw [List.length_append, hlength]
      omega
    · rw [List.take_append_of_le_length (by omega), List.take_take, Nat.min_self]
      exact hcomplete.body
    · rw [List.drop_append_of_le_length (by omega), List.drop_of_length_le (by omega),
        List.nil_append]

variable (runtime limit)

/-- The decoder of messages. -/
def decoder : Decoder Message UInt8 where
  next bytes :=
    match next runtime limit bytes with
    | .ok none => .waiting
    | .ok (some (message, rest)) => .ready message rest
    | .error _ => .failed
  empty := rfl
  frame := by
    intro bytes message rest h
    split at h
    · cases h
    · next hnext =>
        cases h
        obtain ⟨front, hne, hbytes, hfront⟩ := next_front hnext
        refine ⟨front, hne, hbytes, ?_⟩
        intro other
        rw [hfront other]
    · cases h

end MessageDecoder

end TianmaCoder
