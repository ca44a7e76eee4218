import Mathlib.Data.Rat.Floor
import Mathlib.Data.Nat.Notation
import Mathlib.Tactic.Linarith
import Mathlib.Tactic.Ring
import TianmaCoder.Lib.Checked

/-!
# Script numbers and list splicing

A number of the script language, the finite ones by their exact value, with the operations
that list coordinates are normalised with, and the standard copying splice of a list, which
takes any number for its start and its count.

## Main definitions

* `Number` — a number, with the sign of zero kept.
* `toSpliced`, `slice` — the standard list methods.

## Main results

* `relativeStart_index`, `skipCount_ofNat` — a normalised coordinate is its own normal form.
-/

namespace TianmaCoder

/-- A number; the finite ones carry their value, `finite 0` is the positive zero. -/
inductive Number where
  | nan
  | negInfinity
  | posInfinity
  | negZero
  | finite (value : ℚ)
  deriving DecidableEq

namespace Number

/-- The number of a count. -/
def ofNat (n : ℕ) : Number := .finite n

def isNaN : Number → Bool
  | .nan => true
  | _ => false

/-- A value without its fraction. -/
def truncate (q : ℚ) : ℤ := if q < 0 then ⌈q⌉ else ⌊q⌋

/-- `Math.trunc`; a negative fraction becomes the negative zero. -/
def trunc : Number → Number
  | .finite q => if q < 0 ∧ truncate q = 0 then .negZero else .finite (truncate q)
  | x => x

/-- `a < b`. -/
def lt : Number → Number → Bool
  | .nan, _ => false
  | _, .nan => false
  | .negInfinity, .negInfinity => false
  | .negInfinity, _ => true
  | _, .negInfinity => false
  | .posInfinity, _ => false
  | _, .posInfinity => true
  | .negZero, .negZero => false
  | .negZero, .finite q => 0 < q
  | .finite q, .negZero => q < 0
  | .finite q, .finite r => q < r

/-- `a + b`, without rounding. -/
def add : Number → Number → Number
  | .nan, _ => .nan
  | _, .nan => .nan
  | .negInfinity, .posInfinity => .nan
  | .posInfinity, .negInfinity => .nan
  | .negInfinity, _ => .negInfinity
  | _, .negInfinity => .negInfinity
  | .posInfinity, _ => .posInfinity
  | _, .posInfinity => .posInfinity
  | .negZero, x => x
  | x, .negZero => x
  | .finite q, .finite r => .finite (q + r)

/-- `-a`. -/
def neg : Number → Number
  | .nan => .nan
  | .negInfinity => .posInfinity
  | .posInfinity => .negInfinity
  | .negZero => .finite 0
  | .finite q => if q = 0 then .negZero else .finite (-q)

/-- `a - b`, without rounding. -/
def sub (a b : Number) : Number := a.add b.neg

/-- `Math.max`; of two zeros the positive one. -/
def max (a b : Number) : Number :=
  if a.isNaN || b.isNaN then .nan
  else if a.lt b then b
  else if b.lt a then a
  else if a = .negZero then b else a

/-- `Math.min`; of two zeros the negative one. -/
def min (a b : Number) : Number :=
  if a.isNaN || b.isNaN then .nan
  else if a.lt b then a
  else if b.lt a then b
  else if a = .negZero then a else b

/-- `Number.MAX_SAFE_INTEGER`. -/
def maxSafeInteger : ℤ := 2 ^ 53 - 1

/-- `Number.isSafeInteger`. -/
def isSafeInteger : Number → Bool
  | .negZero => true
  | .finite q => q.den = 1 ∧ -maxSafeInteger ≤ q.num ∧ q.num ≤ maxSafeInteger
  | _ => false

/-! ## List coordinates -/

/-- An integer, or an infinity. -/
inductive IntegerOrInfinity where
  | negInfinity
  | int (n : ℤ)
  | posInfinity

/-- The conversion every list method applies to a coordinate first. -/
def toIntegerOrInfinity : Number → IntegerOrInfinity
  | .nan => .int 0
  | .negInfinity => .negInfinity
  | .posInfinity => .posInfinity
  | .negZero => .int 0
  | .finite q => .int (truncate q)

/-- The position a coordinate names in a list; a negative one counts from the end. -/
def relativeStart (length : ℕ) (start : Number) : ℕ :=
  match start.toIntegerOrInfinity with
  | .negInfinity => 0
  | .int n => if n < 0 then (length + n).toNat else Min.min n.toNat length
  | .posInfinity => length

/-- How many items a splice at `start` skips. -/
def skipCount (length start : ℕ) (count : Number) : ℕ :=
  match count.toIntegerOrInfinity with
  | .negInfinity => 0
  | .int n => Min.min n.toNat (length - start)
  | .posInfinity => length - start

variable {α : Type}

/-- The longest list there is. -/
def maxArrayLength : ℕ := 2 ^ 32 - 1

/-- `items` in the place of the `n` items from position `i` on. -/
def spliceAt (xs : List α) (i n : ℕ) (items : List α) : List α :=
  xs.take i ++ items ++ xs.drop (i + n)

/-- The copying splice. -/
def toSpliced (xs : List α) (start count : Number) (items : List α) : Except String (List α) :=
  let index := relativeStart xs.length start
  let spliced := spliceAt xs index (skipCount xs.length index count) items
  if maxArrayLength < spliced.length then throw "Invalid array length" else pure spliced

/-- The items from one coordinate up to another. -/
def slice (xs : List α) (start stop : Number) : List α :=
  (xs.take (relativeStart xs.length stop)).drop (relativeStart xs.length start)

/-! ## Normalised coordinates -/

/-- The number is a position: a count, or the negative zero for the first one. -/
def IsIndex (x : Number) (i : ℕ) : Prop := x = ofNat i ∨ x = .negZero ∧ i = 0

@[simp] theorem truncate_intCast (n : ℤ) : truncate (n : ℚ) = n := by
  simp [truncate]

@[simp] theorem truncate_natCast (n : ℕ) : truncate (n : ℚ) = n := by
  have h := truncate_intCast n
  rwa [Int.cast_natCast] at h

/-- Truncation only drops what the conversion drops too. -/
theorem trunc_cases (x : Number) :
    x.trunc = .nan ∧ x = .nan ∨ x.trunc = .negInfinity ∧ x = .negInfinity ∨
      x.trunc = .posInfinity ∧ x = .posInfinity ∨
      x.trunc = .negZero ∧ x.toIntegerOrInfinity = .int 0 ∨
      ∃ n : ℤ, x.trunc = .finite n ∧ x.toIntegerOrInfinity = .int n := by
  cases x with
  | nan => exact .inl ⟨rfl, rfl⟩
  | negInfinity => exact .inr (.inl ⟨rfl, rfl⟩)
  | posInfinity => exact .inr (.inr (.inl ⟨rfl, rfl⟩))
  | negZero => exact .inr (.inr (.inr (.inl ⟨rfl, rfl⟩)))
  | finite q =>
    by_cases h : q < 0 ∧ truncate q = 0
    · refine .inr (.inr (.inr (.inl ⟨?_, ?_⟩)))
      · rw [trunc, if_pos h]
      · rw [toIntegerOrInfinity, h.2]
    · refine .inr (.inr (.inr (.inr ⟨truncate q, ?_, rfl⟩)))
      rw [trunc, if_neg h]

theorem relativeStart_le (length : ℕ) (start : Number) : relativeStart length start ≤ length := by
  unfold relativeStart
  cases start.toIntegerOrInfinity with
  | negInfinity => exact Nat.zero_le _
  | posInfinity => exact le_refl _
  | int n =>
    by_cases h : n < 0
    · simp only [h, if_true]
      omega
    · simp only [h, if_false]
      omega

theorem skipCount_le (length start : ℕ) (count : Number) :
    skipCount length start count ≤ length - start := by
  unfold skipCount
  cases count.toIntegerOrInfinity with
  | negInfinity => exact Nat.zero_le _
  | posInfinity => exact le_refl _
  | int n => exact Nat.min_le_right _ _

/-- A position names itself. -/
theorem relativeStart_index {length i : ℕ} (hi : i ≤ length) {x : Number} (h : x.IsIndex i) :
    relativeStart length x = i := by
  rcases h with rfl | ⟨rfl, rfl⟩
  · have hnonneg : ¬(i : ℤ) < 0 := by omega
    simp only [relativeStart, ofNat, toIntegerOrInfinity, truncate_natCast, hnonneg, if_false]
    omega
  · simp [relativeStart, toIntegerOrInfinity]

theorem skipCount_ofNat {length start n : ℕ} (h : n ≤ length - start) :
    skipCount length start (ofNat n) = n := by
  simp only [skipCount, ofNat, toIntegerOrInfinity, truncate_natCast]
  omega

theorem IsIndex.isSafeInteger {x : Number} {i : ℕ} (h : x.IsIndex i) (hi : i ≤ maxArrayLength) :
    x.isSafeInteger = true := by
  rcases h with rfl | ⟨rfl, rfl⟩
  · have hbound : (i : ℤ) ≤ maxSafeInteger := by
      simp only [maxArrayLength, maxSafeInteger] at hi ⊢
      omega
    have hlow : -maxSafeInteger ≤ (i : ℤ) := by
      simp only [maxSafeInteger]
      omega
    simp [Number.isSafeInteger, ofNat, hbound, hlow]
  · rfl

/-! ## Arithmetic of integral numbers -/

theorem ofNat_eq (n : ℕ) : ofNat n = .finite ((n : ℤ) : ℚ) := by
  rw [ofNat, Int.cast_natCast]

theorem lt_int (m n : ℤ) : lt (.finite m) (.finite n) = decide (m < n) := by
  simp only [lt, Int.cast_lt]

theorem min_int (m n : ℤ) : Number.min (.finite m) (.finite n) = .finite ((Min.min m n : ℤ) : ℚ) := by
  unfold Number.min
  rw [lt_int, lt_int]
  by_cases h : m < n
  · simp [isNaN, h, min_eq_left h.le]
  · by_cases h' : n < m
    · simp [isNaN, h, h', min_eq_right h'.le]
    · have heq : m = n := by omega
      simp [isNaN, heq]

theorem max_int (m n : ℤ) : Number.max (.finite m) (.finite n) = .finite ((Max.max m n : ℤ) : ℚ) := by
  unfold Number.max
  rw [lt_int, lt_int]
  by_cases h : m < n
  · simp [isNaN, h, max_eq_right h.le]
  · by_cases h' : n < m
    · simp [isNaN, h, h', max_eq_left h'.le]
    · have heq : m = n := by omega
      simp [isNaN, heq]

theorem add_int (m n : ℤ) : add (.finite m) (.finite n) = .finite ((m + n : ℤ) : ℚ) := by
  rw [add, Int.cast_add]

theorem ofNat_sub_index {length i : ℕ} (hi : i ≤ length) {x : Number} (h : x.IsIndex i) :
    (ofNat length).sub x = ofNat (length - i) := by
  rcases h with rfl | ⟨rfl, rfl⟩
  · by_cases hzero : i = 0
    · subst hzero
      simp [sub, neg, ofNat, add]
    · have hcast : (i : ℚ) ≠ 0 := Nat.cast_ne_zero.mpr hzero
      simp only [sub, neg, ofNat, hcast, if_false, add, Number.finite.injEq]
      rw [Nat.cast_sub hi]
      ring
  · simp [sub, neg, ofNat, add]

theorem isIndex_ofNat (n : ℕ) : (ofNat n).IsIndex n := .inl rfl

theorem IsIndex.add {x : Number} {i : ℕ} (h : x.IsIndex i) (n : ℕ) :
    (x.add (ofNat n)).IsIndex (i + n) := by
  left
  rcases h with rfl | ⟨rfl, rfl⟩
  · simp [ofNat, Number.add]
  · simp [ofNat, Number.add]

theorem IsIndex.lt_zero {x : Number} {i : ℕ} (h : x.IsIndex i) : x.lt (ofNat 0) = false := by
  rcases h with rfl | ⟨rfl, rfl⟩
  · simp [ofNat, lt]
  · simp [ofNat, lt]

theorem IsIndex.ofNat_lt {x : Number} {i n : ℕ} (h : x.IsIndex i) (hi : i ≤ n) :
    (ofNat n).lt x = false := by
  rcases h with rfl | ⟨rfl, rfl⟩
  · simp [ofNat, lt, hi]
  · simp [ofNat, lt]

/-! ## Splicing -/

theorem toSpliced_eq_ok_iff {xs ys items : List α} {start count : Number} :
    toSpliced xs start count items = .ok ys ↔
      ¬maxArrayLength < (spliceAt xs (relativeStart xs.length start)
        (skipCount xs.length (relativeStart xs.length start) count) items).length ∧
      spliceAt xs (relativeStart xs.length start)
        (skipCount xs.length (relativeStart xs.length start) count) items = ys := by
  simp only [toSpliced, Checked.throw_eq, Checked.pure_eq]
  rw [Checked.guard_ok_iff, Except.ok.injEq]

theorem length_toSpliced {xs ys items : List α} {start count : Number}
    (h : toSpliced xs start count items = .ok ys) : ys.length ≤ maxArrayLength := by
  have hcases := toSpliced_eq_ok_iff.mp h
  rw [← hcases.2]
  exact not_lt.mp hcases.1

/-- Only the normal form of the coordinates matters. -/
theorem toSpliced_congr (xs items : List α) {start start' count count' : Number}
    (hstart : relativeStart xs.length start = relativeStart xs.length start')
    (hcount : skipCount xs.length (relativeStart xs.length start') count =
      skipCount xs.length (relativeStart xs.length start') count') :
    toSpliced xs start count items = toSpliced xs start' count' items := by
  simp only [toSpliced, hstart, hcount]

/-- A splice exchanges the skipped items for the inserted ones. -/
theorem spliceAt_perm (xs items : List α) (i n : ℕ) :
    (spliceAt xs i n items ++ (xs.drop i).take n).Perm (xs ++ items) := by
  have hparts : xs = xs.take i ++ ((xs.drop i).take n ++ xs.drop (i + n)) := by
    rw [← List.drop_drop, List.take_append_drop, List.take_append_drop]
  have hmiddle : (items ++ (xs.drop (i + n) ++ (xs.drop i).take n)).Perm
      (((xs.drop i).take n ++ xs.drop (i + n)) ++ items) :=
    List.perm_append_comm.trans (List.perm_append_comm.append_right items)
  calc (spliceAt xs i n items ++ (xs.drop i).take n)
      = xs.take i ++ (items ++ (xs.drop (i + n) ++ (xs.drop i).take n)) := by
        simp only [spliceAt, List.append_assoc]
    List.Perm _ (xs.take i ++ (((xs.drop i).take n ++ xs.drop (i + n)) ++ items)) :=
        hmiddle.append_left _
    _ = xs ++ items := by
        rw [← List.append_assoc, ← hparts]

end Number

end TianmaCoder
