import Mathlib.Data.List.TakeDrop

/-!
# Text as bytes

The bytes of a text in UTF-8, and the text of any bytes: what is no character is read as the
replacement character, one for each longest beginning of a character. A cut through the bytes of
a text leaves whole characters and a part of one.

## Main definitions

* `Utf8.encode`, `Utf8.decode` — writing and reading.
* `Utf8.Shape` — the first byte of a character and the others.
* `Utf8.LongestHead`, `Utf8.LongestTail` — the most whole characters that fit at an end.

## Main results

* `Utf8.decode_encode` — a written text is read back.
* `Utf8.exists_cut` — a cut is behind whole characters and a part of one.
* `Utf8.longestHead_of_cut`, `Utf8.longestTail_of_cut` — the whole characters at a cut.
-/

namespace TianmaCoder

namespace Utf8

/-! ## Writing and reading -/

/-- The bytes of a text. -/
def encode (text : List Char) : List UInt8 := text.flatMap String.utf8EncodeChar

/-- The character at the front of some bytes. -/
def char? (bytes : List UInt8) : Option Char := bytes.toByteArray.utf8DecodeChar? 0

/-- `80..BF`. -/
def isTail (b : UInt8) : Bool := 0x80 ≤ b && b ≤ 0xBF

/-- The second byte goes on with a character of three or four bytes. -/
def opens (first second : UInt8) : Bool :=
  if first == 0xE0 then 0xA0 ≤ second && second ≤ 0xBF
  else if first == 0xED then 0x80 ≤ second && second ≤ 0x9F
  else if first == 0xF0 then 0x90 ≤ second && second ≤ 0xBF
  else if first == 0xF4 then 0x80 ≤ second && second ≤ 0x8F
  else 0xE1 ≤ first && first ≤ 0xF3 && isTail second

/-- The length of the longest beginning of a character in front of bytes that hold none. -/
def subpartLength : List UInt8 → ℕ
  | first :: second :: rest =>
    if opens first second then
      match rest with
      | third :: _ => if 0xF0 ≤ first && isTail third then 3 else 2
      | [] => 2
    else 1
  | _ => 1

/-- Read the bytes behind the first `skip`. -/
def decodeFrom : ℕ → List UInt8 → List Char
  | _, [] => []
  | skip + 1, _ :: bytes => decodeFrom skip bytes
  | 0, byte :: bytes =>
    match char? (byte :: bytes) with
    | some c => c :: decodeFrom (c.utf8Size - 1) bytes
    | none => '\uFFFD' :: decodeFrom (subpartLength (byte :: bytes) - 1) bytes

/-- The text of any bytes. -/
def decode (bytes : List UInt8) : List Char := decodeFrom 0 bytes

theorem decodeFrom_drop (skip : ℕ) (bytes : List UInt8) :
    decodeFrom skip bytes = decode (bytes.drop skip) := by
  induction skip generalizing bytes with
  | zero => rfl
  | succ skip ih =>
    cases bytes with
    | nil => rfl
    | cons byte bytes => exact ih bytes

@[simp] theorem encode_nil : encode [] = [] := rfl

theorem encode_cons (c : Char) (text : List Char) :
    encode (c :: text) = String.utf8EncodeChar c ++ encode text := rfl

@[simp] theorem encode_append (s t : List Char) : encode (s ++ t) = encode s ++ encode t :=
  List.flatMap_append

theorem encode_singleton (c : Char) : encode [c] = String.utf8EncodeChar c := by
  rw [encode_cons, encode_nil, List.append_nil]

theorem char?_encode (c : Char) (rest : List UInt8) :
    char? (String.utf8EncodeChar c ++ rest) = some c := by
  rw [char?, List.toByteArray_append]
  exact ByteArray.utf8DecodeChar?_utf8EncodeChar_append

/-- A character in front is read, whatever follows it. -/
theorem decode_char (c : Char) (rest : List UInt8) :
    decode (String.utf8EncodeChar c ++ rest) = c :: decode rest := by
  have hchar := char?_encode c rest
  have hlength := String.length_utf8EncodeChar c
  have hpos := c.utf8Size_pos
  cases hbytes : String.utf8EncodeChar c with
  | nil =>
    rw [hbytes] at hlength
    simp only [List.length_nil] at hlength
    omega
  | cons byte bytes =>
    rw [hbytes] at hlength hchar
    rw [List.length_cons] at hlength
    rw [List.cons_append] at hchar ⊢
    have hdrop : (bytes ++ rest).drop (c.utf8Size - 1) = rest := by
      have hskip : c.utf8Size - 1 = bytes.length := by omega
      rw [hskip, List.drop_left]
    rw [decode, decodeFrom, hchar]
    simp only [decodeFrom_drop, hdrop]

/-- A written text is read back. -/
theorem decode_encode (text : List Char) : decode (encode text) = text := by
  induction text with
  | nil => rfl
  | cons c text ih => rw [encode_cons, decode_char, ih]

/-- Bytes that begin with a character are those of a text that does. -/
theorem head_of_encode {text : List Char} {c : Char} {rest : List UInt8}
    (h : encode text = String.utf8EncodeChar c ++ rest) : text.head? = some c := by
  cases text with
  | nil =>
    have hnil := List.append_eq_nil_iff.mp h.symm
    exact absurd hnil.1 String.utf8EncodeChar_ne_nil
  | cons first text =>
    have hfirst := char?_encode first (encode text)
    rw [← encode_cons, h, char?_encode] at hfirst
    rw [List.head?_cons, Option.some.inj hfirst]

/-! ## The bytes of a character -/

/-- A first byte declares the number of the others. -/
inductive Shape : UInt8 → ℕ → Prop
  | one {lead : UInt8} : lead.toNat < 0x80 → Shape lead 0
  | two {lead : UInt8} : 0xC0 ≤ lead.toNat → lead.toNat < 0xE0 → Shape lead 1
  | three {lead : UInt8} : 0xE0 ≤ lead.toNat → lead.toNat < 0xF0 → Shape lead 2
  | four {lead : UInt8} : 0xF0 ≤ lead.toNat → lead.toNat < 0xF8 → Shape lead 3

theorem isTail_iff {b : UInt8} : isTail b = true ↔ 0x80 ≤ b.toNat ∧ b.toNat < 0xC0 := by
  simp only [isTail, Bool.and_eq_true, decide_eq_true_eq, UInt8.le_iff_toNat_le]
  have hlow : (0x80 : UInt8).toNat = 0x80 := rfl
  have hhigh : (0xBF : UInt8).toNat = 0xBF := rfl
  omega

/-- A character is a first byte and the bytes it declares. -/
theorem shape_of_char (c : Char) : ∃ lead tails, String.utf8EncodeChar c = lead :: tails ∧
    Shape lead tails.length ∧ ∀ b ∈ tails, isTail b = true := by
  have hval : c.val.toNat < 0x110000 := by
    rcases c.valid with h | h <;> omega
  unfold String.utf8EncodeChar
  dsimp only
  split
  · refine ⟨_, _, rfl, .one ?_, by simp⟩
    rw [UInt8.toNat_ofNat']
    omega
  · split
    · refine ⟨_, _, rfl, .two ?_ ?_, ?_⟩
      · rw [UInt8.toNat_ofNat']
        omega
      · rw [UInt8.toNat_ofNat']
        omega
      · simp only [List.mem_cons, List.not_mem_nil, or_false, forall_eq, isTail_iff,
          UInt8.toNat_ofNat']
        omega
    · split
      · refine ⟨_, _, rfl, .three ?_ ?_, ?_⟩
        · rw [UInt8.toNat_ofNat']
          omega
        · rw [UInt8.toNat_ofNat']
          omega
        · simp only [List.mem_cons, List.not_mem_nil, or_false, forall_eq_or_imp, forall_eq,
            isTail_iff, UInt8.toNat_ofNat']
          omega
      · refine ⟨_, _, rfl, .four ?_ ?_, ?_⟩
        · rw [UInt8.toNat_ofNat']
          omega
        · rw [UInt8.toNat_ofNat']
          omega
        · simp only [List.mem_cons, List.not_mem_nil, or_false, forall_eq_or_imp, forall_eq,
            isTail_iff, UInt8.toNat_ofNat']
          omega

/-- A first byte is no other one. -/
theorem Shape.not_tail {lead : UInt8} {n : ℕ} (h : Shape lead n) : isTail lead = false := by
  have hnot : ¬(0x80 ≤ lead.toNat ∧ lead.toNat < 0xC0) := by
    cases h <;> omega
  rw [← isTail_iff] at hnot
  exact Bool.eq_false_iff.mpr hnot

theorem Shape.le_three {lead : UInt8} {n : ℕ} (h : Shape lead n) : n ≤ 3 := by
  cases h <;> omega

/-! ## Cuts -/

theorem length_encode_pos {text : List Char} (h : text ≠ []) : 0 < (encode text).length := by
  cases text with
  | nil => exact absurd rfl h
  | cons c text =>
    have hpos := c.utf8Size_pos
    rw [encode_cons, List.length_append, String.length_utf8EncodeChar]
    omega

/-- A cut is behind whole characters and `k` bytes of the next one. -/
theorem exists_cut (text : List Char) {n : ℕ} (h : n ≤ (encode text).length) : ∃ front back k,
    text = front ++ back ∧ n = (encode front).length + k ∧
      (k = 0 ∨ ∃ c rest, back = c :: rest ∧ 0 < k ∧ k < c.utf8Size) := by
  induction text generalizing n with
  | nil => exact ⟨[], [], 0, rfl, by simpa using h, .inl rfl⟩
  | cons c text ih =>
    rw [encode_cons, List.length_append, String.length_utf8EncodeChar] at h
    by_cases hzero : n = 0
    · exact ⟨[], c :: text, 0, rfl, hzero, .inl rfl⟩
    · by_cases hwhole : c.utf8Size ≤ n
      · obtain ⟨front, back, k, htext, hn, hk⟩ := ih (n := n - c.utf8Size) (by omega)
        have hsum : n = c.utf8Size + (encode front).length + k := by
          clear hk
          omega
        refine ⟨c :: front, back, k, by rw [htext, List.cons_append], ?_, hk⟩
        rw [encode_cons, List.length_append, String.length_utf8EncodeChar, hsum]
      · exact ⟨[], c :: text, n, rfl, by simp, .inr ⟨c, text, rfl, by omega, by omega⟩⟩

/-- The most whole characters at the front of a text that fit. -/
structure LongestHead (text : List Char) (cap : ℕ) (run : List Char) : Prop where
  whole : run <+: text
  fits : (encode run).length ≤ cap
  longest : ∀ other, other <+: text → (encode other).length ≤ cap → other.length ≤ run.length

/-- The most whole characters at the end of a text that fit. -/
structure LongestTail (text : List Char) (cap : ℕ) (run : List Char) : Prop where
  whole : run <:+ text
  fits : (encode run).length ≤ cap
  longest : ∀ other, other <:+ text → (encode other).length ≤ cap → other.length ≤ run.length

theorem LongestHead.unique {text : List Char} {cap : ℕ} {run run' : List Char}
    (h : LongestHead text cap run) (h' : LongestHead text cap run') : run = run' := by
  have hle := h.longest run' h'.whole h'.fits
  have hge := h'.longest run h.whole h.fits
  exact (List.prefix_of_prefix_length_le h.whole h'.whole hge).eq_of_length_le hle

theorem LongestTail.unique {text : List Char} {cap : ℕ} {run run' : List Char}
    (h : LongestTail text cap run) (h' : LongestTail text cap run') : run = run' := by
  have hle := h.longest run' h'.whole h'.fits
  have hge := h'.longest run h.whole h.fits
  exact (List.suffix_of_suffix_length_le h.whole h'.whole hge).eq_of_length_le hle

/-- The whole characters in front of a cut. -/
theorem longestHead_of_cut {front back : List Char} {n k : ℕ} (hn : n = (encode front).length + k)
    (hk : k = 0 ∨ ∃ c rest, back = c :: rest ∧ 0 < k ∧ k < c.utf8Size) :
    LongestHead (front ++ back) n front where
  whole := List.prefix_append front back
  fits := by omega
  longest other hother hfits := by
    by_contra hlong
    obtain ⟨more, rfl⟩ := List.prefix_of_prefix_length_le (List.prefix_append front back) hother
      (by omega)
    rw [List.prefix_append_right_inj] at hother
    rw [encode_append, List.length_append] at hfits
    cases more with
    | nil => simp at hlong
    | cons d more =>
      have hpos := d.utf8Size_pos
      rw [encode_cons, List.length_append, String.length_utf8EncodeChar] at hfits
      rcases hk with hk | ⟨c, rest, rfl, -, hk⟩
      · omega
      · have hsame : d = c := (List.cons_prefix_cons.mp hother).1
        subst hsame
        omega

theorem longestTail_of_cut {front back : List Char} :
    LongestTail (front ++ back) (encode back).length back where
  whole := List.suffix_append front back
  fits := Nat.le_refl _
  longest other hother hfits := by
    by_contra hlong
    obtain ⟨more, rfl⟩ := List.suffix_of_suffix_length_le (List.suffix_append front back) hother
      (by omega)
    rw [encode_append, List.length_append] at hfits
    have hmore : more ≠ [] := by
      rintro rfl
      simp at hlong
    have hpos := length_encode_pos hmore
    omega

theorem longestTail_of_cut_char {front rest : List Char} {c : Char} {n : ℕ}
    (hfits : (encode rest).length ≤ n) (hsize : n < c.utf8Size + (encode rest).length) :
    LongestTail (front ++ c :: rest) n rest where
  whole := ((List.suffix_cons c rest).trans (List.suffix_append front (c :: rest)))
  fits := hfits
  longest other hother hother' := by
    by_contra hlong
    obtain ⟨more, rfl⟩ := List.suffix_of_suffix_length_le
      (List.suffix_append front (c :: rest)) hother (by simp only [List.length_cons]; omega)
    rw [encode_append, List.length_append, encode_cons, List.length_append,
      String.length_utf8EncodeChar] at hother'
    omega

end Utf8

end TianmaCoder
