import Mathlib.Data.List.Sort
import Mathlib.Data.String.Basic
import Mathlib.Data.Nat.Notation

/-!
# Script strings

Trimming, the kebab-case pattern, string literals and sorted key lists, as the script language
has them.

## Main results

* `trim_trim` — a trimmed string is trimmed.
-/

namespace TianmaCoder

namespace Text

/-- White space and line terminators. -/
def isSpace (c : Char) : Bool :=
  (0x9 ≤ c.toNat && c.toNat ≤ 0xD) || c.toNat == 0x20 || c.toNat == 0xA0 || c.toNat == 0x1680 ||
    (0x2000 ≤ c.toNat && c.toNat ≤ 0x200A) || c.toNat == 0x2028 || c.toNat == 0x2029 ||
    c.toNat == 0x202F || c.toNat == 0x205F || c.toNat == 0x3000 || c.toNat == 0xFEFF

/-- Drop the matching items at both ends. -/
def stripBoth {α : Type} (p : α → Bool) (xs : List α) : List α :=
  ((xs.dropWhile p).reverse.dropWhile p).reverse

/-- `s.trim()`. -/
def trim (s : String) : String := String.ofList (stripBoth isSpace s.toList)

/-- A string that is not blank and has no white space at its ends. -/
def isNormalized (s : String) : Bool := trim s ≠ "" && s = trim s

/-- `[a-z]`. -/
def isLower (c : Char) : Bool := 'a' ≤ c && c ≤ 'z'

/-- `[a-z0-9]`. -/
def isLowerOrDigit (c : Char) : Bool := isLower c || ('0' ≤ c && c ≤ '9')

/-- The rest of a kebab-case word, inside a segment or right after a hyphen. -/
def kebabRest : Bool → List Char → Bool
  | inside, [] => inside
  | inside, c :: cs =>
    if isLowerOrDigit c then kebabRest true cs
    else inside && c == '-' && kebabRest false cs

/-- `/^[a-z][a-z0-9]*(?:-[a-z0-9]+)*$/`. -/
def isLowerKebab (s : String) : Bool :=
  match s.toList with
  | [] => false
  | c :: cs => isLower c && kebabRest true cs

/-- `Object.keys(value).sort().join(',')`. -/
def joinedKeys (keys : List String) : String :=
  ",".intercalate (keys.insertionSort (· ≤ ·))

/-- A character of a JSON string literal. -/
def escaped (c : Char) : List Char :=
  if c = '"' then ['\\', '"']
  else if c = '\\' then ['\\', '\\']
  else if c = '\n' then ['\\', 'n']
  else if c = '\r' then ['\\', 'r']
  else if c = '\t' then ['\\', 't']
  else if c.toNat = 0x8 then ['\\', 'b']
  else if c.toNat = 0xC then ['\\', 'f']
  else if c.toNat < 0x20 then
    ['\\', 'u', '0', '0', Nat.digitChar (c.toNat / 16), Nat.digitChar (c.toNat % 16)]
  else [c]

/-- `JSON.stringify` of a string. -/
def quoted (s : String) : String := String.ofList ('"' :: (s.toList.flatMap escaped ++ ['"']))

theorem head_dropWhile {α : Type} (p : α → Bool) (xs : List α) :
    ∀ x ∈ (xs.dropWhile p).head?, p x = false := by
  intro x hx
  induction xs with
  | nil => simp at hx
  | cons y ys ih =>
    by_cases hy : p y = true
    · rw [List.dropWhile_cons_of_pos hy] at hx
      exact ih hx
    · rw [List.dropWhile_cons_of_neg hy, List.head?_cons, Option.mem_some_iff] at hx
      simpa [← hx] using hy

theorem dropWhile_of_head {α : Type} {p : α → Bool} {xs : List α}
    (h : ∀ x ∈ xs.head?, p x = false) : xs.dropWhile p = xs := by
  cases xs with
  | nil => rfl
  | cons x xs =>
    have hx : p x = false := h x (by simp)
    rw [List.dropWhile_cons_of_neg (by simp [hx])]

/-- What is left at the front of a list survives stripping its end. -/
theorem head_stripBoth {α : Type} (p : α → Bool) (xs : List α) :
    ∀ x ∈ (stripBoth p xs).head?, p x = false := by
  intro x hx
  have hfront := head_dropWhile p xs
  generalize hys : xs.dropWhile p = ys at hfront
  cases ys with
  | nil => simp [stripBoth, hys] at hx
  | cons y ys =>
    have hy : p y = false := hfront y (by simp)
    have hsplit : (ys.reverse ++ [y]).dropWhile p =
        if (ys.reverse.dropWhile p).isEmpty then [y] else ys.reverse.dropWhile p ++ [y] := by
      rw [List.dropWhile_append]
      simp [hy]
    rw [stripBoth, hys, List.reverse_cons, hsplit] at hx
    by_cases hempty : (ys.reverse.dropWhile p).isEmpty = true
    · simp only [hempty, if_true, List.reverse_singleton, List.head?_cons,
        Option.mem_some_iff] at hx
      exact hx ▸ hy
    · simp only [hempty, Bool.false_eq_true, if_false, List.reverse_append, List.reverse_singleton,
        List.singleton_append, List.head?_cons, Option.mem_some_iff] at hx
      exact hx ▸ hy

theorem stripBoth_stripBoth {α : Type} (p : α → Bool) (xs : List α) :
    stripBoth p (stripBoth p xs) = stripBoth p xs := by
  have hfront := dropWhile_of_head (head_stripBoth p xs)
  have hback : ((stripBoth p xs).reverse).dropWhile p = (stripBoth p xs).reverse := by
    rw [stripBoth, List.reverse_reverse]
    exact dropWhile_of_head (head_dropWhile p _)
  rw [stripBoth, hfront, hback, List.reverse_reverse]

theorem trim_trim (s : String) : trim (trim s) = trim s := by
  simp only [trim, String.toList_ofList, stripBoth_stripBoth]

theorem isNormalized_trim {s : String} (h : trim s ≠ "") : isNormalized (trim s) = true := by
  simp [isNormalized, h, trim_trim]

end Text

end TianmaCoder
