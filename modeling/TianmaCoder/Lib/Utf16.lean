import Mathlib.Data.List.Basic
import Mathlib.Data.Nat.Notation

/-!
# Texts as code units

A script string is a list of code units. Its characters are read unit by unit, a high and a low
surrogate together as one character; a surrogate without its partner is read as the replacement
character.

## Main definitions

* `Utf16.decode`, `Utf16.encode` — the characters of some units and the units of a text.

## Main results

* `Utf16.decode_encode` — a text is read back from its units.
-/

namespace TianmaCoder

namespace Utf16

/-- `D800..DBFF`. -/
def isHigh (u : UInt16) : Bool := 0xD800 ≤ u && u ≤ 0xDBFF

/-- `DC00..DFFF`. -/
def isLow (u : UInt16) : Bool := 0xDC00 ≤ u && u ≤ 0xDFFF

/-- The character of a unit of its own. -/
def single (u : UInt16) : Char :=
  if isHigh u || isLow u then '\uFFFD' else Char.ofNat u.toNat

/-- The character of two surrogates. -/
def pair (high low : UInt16) : Char :=
  Char.ofNat (0x10000 + (high.toNat - 0xD800) * 0x400 + (low.toNat - 0xDC00))

/-- The characters of some units. -/
def decode : List UInt16 → List Char
  | [] => []
  | [u] => [single u]
  | u :: v :: rest =>
    if isHigh u && isLow v then pair u v :: decode rest else single u :: decode (v :: rest)

/-- The units of a character. -/
def encodeChar (c : Char) : List UInt16 :=
  if c.toNat < 0x10000 then [UInt16.ofNat c.toNat]
  else
    [UInt16.ofNat (0xD800 + (c.toNat - 0x10000) / 0x400),
      UInt16.ofNat (0xDC00 + (c.toNat - 0x10000) % 0x400)]

/-- The units of a text. -/
def encode (text : List Char) : List UInt16 := text.flatMap encodeChar

theorem isHigh_iff {u : UInt16} : isHigh u = true ↔ 0xD800 ≤ u.toNat ∧ u.toNat < 0xDC00 := by
  simp only [isHigh, Bool.and_eq_true, decide_eq_true_eq, UInt16.le_iff_toNat_le]
  have hlow : (0xD800 : UInt16).toNat = 0xD800 := rfl
  have hhigh : (0xDBFF : UInt16).toNat = 0xDBFF := rfl
  omega

theorem isLow_iff {u : UInt16} : isLow u = true ↔ 0xDC00 ≤ u.toNat ∧ u.toNat < 0xE000 := by
  simp only [isLow, Bool.and_eq_true, decide_eq_true_eq, UInt16.le_iff_toNat_le]
  have hlow : (0xDC00 : UInt16).toNat = 0xDC00 := rfl
  have hhigh : (0xDFFF : UInt16).toNat = 0xDFFF := rfl
  omega

/-- A unit that is no high surrogate is read by itself, whatever follows it. -/
theorem decode_single {u : UInt16} (h : isHigh u = false) (rest : List UInt16) :
    decode (u :: rest) = single u :: decode rest := by
  cases rest with
  | nil => rfl
  | cons v rest => simp [decode, h]

/-- The units of a character in front are read as it. -/
theorem decode_char (c : Char) (rest : List UInt16) :
    decode (encodeChar c ++ rest) = c :: decode rest := by
  have hval : c.toNat < 0xD800 ∨ 0xDFFF < c.toNat ∧ c.toNat < 0x110000 := c.valid
  unfold encodeChar
  by_cases hsmall : c.toNat < 0x10000
  · rw [if_pos hsmall]
    have hnat : (UInt16.ofNat c.toNat).toNat = c.toNat := by
      rw [UInt16.toNat_ofNat']
      omega
    have hhigh : isHigh (UInt16.ofNat c.toNat) = false := by
      rw [Bool.eq_false_iff, ne_eq, isHigh_iff, hnat]
      omega
    have hlow : isLow (UInt16.ofNat c.toNat) = false := by
      rw [Bool.eq_false_iff, ne_eq, isLow_iff, hnat]
      omega
    have hsingle : single (UInt16.ofNat c.toNat) = c := by
      rw [single, hhigh, hlow, hnat]
      exact Char.ofNat_toNat c
    rw [List.cons_append, List.nil_append, decode_single hhigh, hsingle]
  · rw [if_neg hsmall]
    have hhigh : (UInt16.ofNat (0xD800 + (c.toNat - 0x10000) / 0x400)).toNat =
        0xD800 + (c.toNat - 0x10000) / 0x400 := by
      rw [UInt16.toNat_ofNat']
      omega
    have hlow : (UInt16.ofNat (0xDC00 + (c.toNat - 0x10000) % 0x400)).toNat =
        0xDC00 + (c.toNat - 0x10000) % 0x400 := by
      rw [UInt16.toNat_ofNat']
      omega
    have hisHigh : isHigh (UInt16.ofNat (0xD800 + (c.toNat - 0x10000) / 0x400)) = true := by
      rw [isHigh_iff, hhigh]
      omega
    have hisLow : isLow (UInt16.ofNat (0xDC00 + (c.toNat - 0x10000) % 0x400)) = true := by
      rw [isLow_iff, hlow]
      omega
    have hpair : pair (UInt16.ofNat (0xD800 + (c.toNat - 0x10000) / 0x400))
        (UInt16.ofNat (0xDC00 + (c.toNat - 0x10000) % 0x400)) = c := by
      rw [pair, hhigh, hlow]
      have hsum : 0x10000 + (0xD800 + (c.toNat - 0x10000) / 0x400 - 0xD800) * 0x400 +
          (0xDC00 + (c.toNat - 0x10000) % 0x400 - 0xDC00) = c.toNat := by omega
      rw [hsum]
      exact Char.ofNat_toNat c
    simp only [List.cons_append, List.nil_append, decode, hisHigh, hisLow, Bool.and_self, if_true,
      hpair]

/-- A text is read back from its units. -/
theorem decode_encode (text : List Char) : decode (encode text) = text := by
  induction text with
  | nil => rfl
  | cons c text ih =>
    have hcons : encode (c :: text) = encodeChar c ++ encode text := rfl
    rw [hcons, decode_char, ih]

end Utf16

end TianmaCoder
