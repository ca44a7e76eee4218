import Mathlib.Data.Int.Notation
import Mathlib.Data.List.Basic
import Mathlib.Data.Nat.Notation
import Mathlib.Data.String.Basic
import Mathlib.Tactic.Ring

/-!
# Instants of the proleptic calendar

Milliseconds since the epoch, their calendar fields in UTC and their text, as the dates of the
script language have them. A day belongs to the last year that starts no later, and to the last
month of that year that starts no later.

## Main definitions

* `parts`, `epoch` — the calendar fields of an instant, and the instant of calendar fields.
* `toISOString`, `parse` — the text of an instant, and the instant of a text.
* `isUtcInstant` — the canonical texts with four-digit years.

## Main results

* `epoch_parts` — the fields of an instant name it.
* `parse_toISOString` — the text of an instant with a four-digit year is read back.
* `parse_range` — a canonical text names an instant with a four-digit year.
-/

namespace TianmaCoder

namespace Instant

/-! ## Days and years -/

def msPerDay : ℤ := 86400000

/-- The day number of the first day of a year. -/
def dayFromYear (y : ℤ) : ℤ :=
  365 * (y - 1970) + (y - 1969) / 4 - (y - 1901) / 100 + (y - 1601) / 400

def isLeap (y : ℤ) : Bool := y % 4 = 0 && (y % 100 ≠ 0 || y % 400 = 0)

theorem dayFromYear_succ (y : ℤ) :
    dayFromYear (y + 1) = dayFromYear y + 365 + if isLeap y then 1 else 0 := by
  unfold dayFromYear isLeap
  by_cases h4 : y % 4 = 0
  · by_cases h100 : y % 100 = 0
    · by_cases h400 : y % 400 = 0
      · simp [h4, h400]
        omega
      · simp [h4, h100, h400]
        omega
    · simp [h4, h100]
      omega
  · simp [h4]
    omega

theorem dayFromYear_mono {y z : ℤ} (h : y ≤ z) : dayFromYear y ≤ dayFromYear z := by
  unfold dayFromYear
  omega

/-- The year of a day: the mean length of a year finds it up to one. -/
def yearFromDay (d : ℤ) : ℤ :=
  let y := 400 * d / 146097 + 1970
  if dayFromYear (y + 1) ≤ d then y + 1
  else if dayFromYear y ≤ d then y
  else y - 1

/-- The year of a day is the last one that starts no later. -/
theorem yearFromDay_spec (d : ℤ) :
    dayFromYear (yearFromDay d) ≤ d ∧ d < dayFromYear (yearFromDay d + 1) := by
  unfold yearFromDay
  simp only
  generalize hy : 400 * d / 146097 + 1970 = y
  by_cases hnext : dayFromYear (y + 1) ≤ d
  · rw [if_pos hnext]
    refine ⟨hnext, ?_⟩
    unfold dayFromYear
    omega
  · rw [if_neg hnext]
    by_cases hsame : dayFromYear y ≤ d
    · rw [if_pos hsame]
      exact ⟨hsame, by omega⟩
    · rw [if_neg hsame]
      refine ⟨?_, ?_⟩
      · unfold dayFromYear
        omega
      · rw [Int.sub_add_cancel]
        omega

/-! ## Months -/

/-- The days of a year before a month, counted from zero. -/
def daysBefore (leap : Bool) (month : ℕ) : ℕ :=
  [0, 31, 59, 90, 120, 151, 181, 212, 243, 273, 304, 334].getD month 0
    + if leap && 2 ≤ month then 1 else 0

/-- The month of a day of the year, counted from zero. -/
def monthFromDay (leap : Bool) (day : ℕ) : ℕ :=
  (List.range 12).countP (fun month => daysBefore leap month ≤ day) - 1

private theorem month_table : ∀ leap : Bool, ∀ day < 366,
    monthFromDay leap day < 12 ∧ daysBefore leap (monthFromDay leap day) ≤ day ∧
      day < daysBefore leap (monthFromDay leap day) + (31 + if day = 365 then 1 else 0) ∧
      (day = 365 → leap = true → day < daysBefore leap (monthFromDay leap day) + 31) := by
  decide +kernel

/-- A month starts no later than its days, and lasts thirty-one days at most. -/
theorem monthFromDay_spec {leap : Bool} {day : ℕ} (h : day < 365 + if leap then 1 else 0) :
    monthFromDay leap day < 12 ∧ daysBefore leap (monthFromDay leap day) ≤ day ∧
      day < daysBefore leap (monthFromDay leap day) + 31 := by
  have hday : day < 366 := by
    cases leap <;> simp at h <;> omega
  obtain ⟨hmonth, hle, hlt, hlast⟩ := month_table leap day hday
  refine ⟨hmonth, hle, ?_⟩
  by_cases hend : day = 365
  · cases leap with
    | true => exact hlast hend rfl
    | false =>
      simp at h
      omega
  · simpa [hend] using hlt

theorem daysBefore_le {leap : Bool} {month : ℕ} (h : month < 12) :
    daysBefore leap month + 31 ≤ 365 + if leap then 1 else 0 := by
  have htable : ∀ leap : Bool, ∀ month < 12,
      daysBefore leap month + 31 ≤ 365 + if leap then 1 else 0 := by decide
  exact htable leap month h

/-! ## Fields -/

/-- The calendar fields of an instant. -/
structure Parts where
  year : ℤ
  month : ℕ
  day : ℕ
  hour : ℕ
  minute : ℕ
  second : ℕ
  millisecond : ℕ
  deriving DecidableEq

/-- The day number of a date; months beyond the year carry over. -/
def makeDay (year : ℤ) (month day : ℕ) : ℤ :=
  let y := year + ((month : ℤ) - 1) / 12
  dayFromYear y + daysBefore (isLeap y) (((month : ℤ) - 1) % 12).toNat + ((day : ℤ) - 1)

def makeTime (p : Parts) : ℤ :=
  3600000 * p.hour + 60000 * p.minute + 1000 * p.second + p.millisecond

/-- The instant of calendar fields. -/
def epoch (p : Parts) : ℤ := makeDay p.year p.month p.day * msPerDay + makeTime p

/-- The calendar fields of an instant. -/
def parts (t : ℤ) : Parts :=
  let d := t / msPerDay
  let ms := (t % msPerDay).toNat
  let y := yearFromDay d
  let k := (d - dayFromYear y).toNat
  let m := monthFromDay (isLeap y) k
  { year := y
    month := m + 1
    day := k - daysBefore (isLeap y) m + 1
    hour := ms / 3600000
    minute := ms / 60000 % 60
    second := ms / 1000 % 60
    millisecond := ms % 1000 }

/-- The fields are those of a calendar date and a time of day. -/
structure Parts.InRange (p : Parts) : Prop where
  month_pos : 1 ≤ p.month
  month_le : p.month ≤ 12
  day_pos : 1 ≤ p.day
  day_le : p.day ≤ 31
  hour_le : p.hour ≤ 23
  minute_le : p.minute ≤ 59
  second_le : p.second ≤ 59
  millisecond_le : p.millisecond ≤ 999

instance (p : Parts) : Decidable p.InRange :=
  decidable_of_iff (1 ≤ p.month ∧ p.month ≤ 12 ∧ 1 ≤ p.day ∧ p.day ≤ 31 ∧ p.hour ≤ 23
      ∧ p.minute ≤ 59 ∧ p.second ≤ 59 ∧ p.millisecond ≤ 999)
    ⟨fun ⟨a, b, c, d, e, f, g, h⟩ => ⟨a, b, c, d, e, f, g, h⟩,
      fun ⟨a, b, c, d, e, f, g, h⟩ => ⟨a, b, c, d, e, f, g, h⟩⟩

private theorem dayOfYear (t : ℤ) :
    0 ≤ t / msPerDay - dayFromYear (yearFromDay (t / msPerDay)) ∧
      (t / msPerDay - dayFromYear (yearFromDay (t / msPerDay))).toNat
        < 365 + if isLeap (yearFromDay (t / msPerDay)) then 1 else 0 := by
  have hspec := yearFromDay_spec (t / msPerDay)
  have hsucc := dayFromYear_succ (yearFromDay (t / msPerDay))
  cases hleap : isLeap (yearFromDay (t / msPerDay)) with
  | true =>
    simp only [hleap, if_true] at hsucc ⊢
    omega
  | false =>
    simp only [hleap, Bool.false_eq_true, if_false] at hsucc ⊢
    omega

theorem parts_inRange (t : ℤ) : (parts t).InRange := by
  obtain ⟨_, hlt⟩ := dayOfYear t
  obtain ⟨hmonth, hle, hday⟩ := monthFromDay_spec hlt
  have hms : (t % msPerDay).toNat < 86400000 := by
    unfold msPerDay
    omega
  constructor <;> simp only [parts] <;> omega

/-- The fields of an instant name it. -/
theorem epoch_parts (t : ℤ) : epoch (parts t) = t := by
  obtain ⟨hnonneg, hlt⟩ := dayOfYear t
  obtain ⟨hmonth, hle, _⟩ := monthFromDay_spec hlt
  simp only [epoch, makeDay, makeTime, parts]
  generalize hd : t / msPerDay = d at *
  generalize yearFromDay d = y at *
  generalize hk : (d - dayFromYear y).toNat = k at *
  generalize monthFromDay (isLeap y) k = m at *
  have hyear : ((m + 1 : ℕ) - 1 : ℤ) / 12 = 0 := by omega
  have hindex : (((m + 1 : ℕ) - 1 : ℤ) % 12).toNat = m := by omega
  rw [hyear, hindex, Int.add_zero]
  have hdate : dayFromYear y + (daysBefore (isLeap y) m : ℤ)
      + (((k - daysBefore (isLeap y) m + 1 : ℕ) : ℤ) - 1) = d := by omega
  rw [hdate]
  unfold msPerDay at *
  omega

/-- `Date.parse('0001-01-01T00:00:00.000Z')` -/
def minFourDigitYear : ℤ := epoch ⟨1, 1, 1, 0, 0, 0, 0⟩

/-- `Date.parse('9999-12-31T23:59:59.999Z')` -/
def maxFourDigitYear : ℤ := epoch ⟨9999, 12, 31, 23, 59, 59, 999⟩

theorem minFourDigitYear_eq : minFourDigitYear = -62135596800000 := by decide +kernel
theorem maxFourDigitYear_eq : maxFourDigitYear = 253402300799999 := by decide +kernel

theorem year_of_range {t : ℤ} (hmin : minFourDigitYear ≤ t) (hmax : t ≤ maxFourDigitYear) :
    1 ≤ (parts t).year ∧ (parts t).year ≤ 9999 := by
  rw [minFourDigitYear_eq] at hmin
  rw [maxFourDigitYear_eq] at hmax
  obtain ⟨hle, hlt⟩ := yearFromDay_spec (t / msPerDay)
  change 1 ≤ yearFromDay (t / msPerDay) ∧ yearFromDay (t / msPerDay) ≤ 9999
  generalize yearFromDay (t / msPerDay) = y at *
  unfold dayFromYear msPerDay at *
  omega

/-- Fields with a four-digit year name an instant between the two bounds. -/
theorem epoch_range {p : Parts} (h : p.InRange) (hmin : 1 ≤ p.year) (hmax : p.year ≤ 9999) :
    minFourDigitYear ≤ epoch p ∧ epoch p ≤ maxFourDigitYear := by
  rw [minFourDigitYear_eq, maxFourDigitYear_eq]
  obtain ⟨hm1, hm2, hd1, hd2, hh, hmin', hs, hms⟩ := h
  have hmonth : p.month - 1 < 12 := by omega
  have hyear : ((p.month : ℤ) - 1) / 12 = 0 := by omega
  have hindex : (((p.month : ℤ) - 1) % 12).toNat = p.month - 1 := by omega
  simp only [epoch, makeDay, makeTime, hyear, hindex, Int.add_zero]
  have hfit : daysBefore (isLeap p.year) (p.month - 1) + 31
      ≤ 365 + if isLeap p.year then 1 else 0 := daysBefore_le hmonth
  have hsucc := dayFromYear_succ p.year
  have hfirst : dayFromYear 1 ≤ dayFromYear p.year := dayFromYear_mono hmin
  have hlast : dayFromYear (p.year + 1) ≤ dayFromYear 10000 := dayFromYear_mono (by omega)
  have hfirst' : dayFromYear 1 = -719162 := by decide
  have hlast' : dayFromYear 10000 = 2932897 := by decide
  have hdays : (daysBefore (isLeap p.year) (p.month - 1) : ℤ) + 31
      ≤ 365 + if isLeap p.year then 1 else 0 := by
    cases hleap : isLeap p.year <;> simp only [hleap] at hfit ⊢ <;> simp at hfit ⊢ <;> omega
  unfold msPerDay
  omega

/-! ## Text -/

/-- The last decimal digit of a number. -/
def digit (n : ℕ) : Char := Nat.digitChar (n % 10)

/-- The value of a decimal digit. -/
def digit? (c : Char) : Option ℕ := if c.isDigit then some (c.toNat - 48) else none

@[simp] theorem digit?_digit (n : ℕ) : digit? (digit n) = some (n % 10) := by
  have htable : ∀ d < 10, digit? (Nat.digitChar d) = some d := by decide
  exact htable (n % 10) (by omega)

/-- The last digits of a number, the given count of them. -/
def padded : ℕ → ℕ → List Char
  | 0, _ => []
  | count + 1, n => padded count (n / 10) ++ [digit n]

/-- Read the given count of digits. -/
def digits : ℕ → ℕ → List Char → Option (ℕ × List Char)
  | 0, value, cs => some (value, cs)
  | count + 1, value, c :: cs =>
    (digit? c).bind fun d => digits count (10 * value + d) cs
  | _ + 1, _, [] => none

/-- Read one given character. -/
def expect (c : Char) : List Char → Option (List Char)
  | d :: cs => if d = c then some cs else none
  | [] => none

@[simp] theorem expect_cons (c : Char) (cs : List Char) : expect c (c :: cs) = some cs := by
  simp [expect]

/-- Reading digits goes on behind the ones read. -/
theorem digits_append (count : ℕ) : ∀ (rest value n : ℕ) (cs : List Char),
    digits (count + rest) value (padded count n ++ cs)
      = digits rest (10 ^ count * value + n % 10 ^ count) cs := by
  induction count with
  | zero =>
    intro rest value n cs
    simp [padded, Nat.mod_one]
  | succ count ih =>
    intro rest value n cs
    have hmod : n % 10 ^ (count + 1) = 10 * (n / 10 % 10 ^ count) + n % 10 := by
      rw [Nat.pow_succ, Nat.mul_comm (10 ^ count) 10, Nat.mod_mul, Nat.add_comm]
    rw [padded, List.append_assoc, List.singleton_append, Nat.add_assoc, Nat.add_comm 1 rest, ih,
      digits, digit?_digit, Option.bind_some, hmod, Nat.pow_succ]
    congr 1
    ring_nf

theorem digits_padded (count n : ℕ) (cs : List Char) :
    digits count 0 (padded count n ++ cs) = some (n % 10 ^ count, cs) := by
  have happend := digits_append count 0 0 n cs
  rwa [Nat.add_zero, Nat.mul_zero, Nat.zero_add, digits] at happend

/-- `YYYY`, or a sign and six digits. -/
def yearText (year : ℤ) : List Char :=
  if 0 ≤ year ∧ year ≤ 9999 then padded 4 year.toNat
  else (if year < 0 then '-' else '+') :: padded 6 year.natAbs

/-- `YYYY-MM-DDTHH:mm:ss.sssZ` -/
def Parts.text (p : Parts) : String :=
  String.ofList (yearText p.year ++ '-' :: (padded 2 p.month ++ '-' :: (padded 2 p.day
    ++ 'T' :: (padded 2 p.hour ++ ':' :: (padded 2 p.minute ++ ':' :: (padded 2 p.second
    ++ '.' :: (padded 3 p.millisecond ++ ['Z'])))))))

/-- `new Date(t).toISOString()` -/
def toISOString (t : ℤ) : String := (parts t).text

/-- Read `YYYY-MM-DDTHH:mm:ss`. -/
def readDateTime (cs : List Char) : Option (Parts × List Char) := do
  let (year, cs) ← digits 4 0 cs
  let cs ← expect '-' cs
  let (month, cs) ← digits 2 0 cs
  let cs ← expect '-' cs
  let (day, cs) ← digits 2 0 cs
  let cs ← expect 'T' cs
  let (hour, cs) ← digits 2 0 cs
  let cs ← expect ':' cs
  let (minute, cs) ← digits 2 0 cs
  let cs ← expect ':' cs
  let (second, cs) ← digits 2 0 cs
  pure (⟨year, month, day, hour, minute, second, 0⟩, cs)

/-- Read `YYYY-MM-DDTHH:mm:ss.sssZ`. -/
def read (s : String) : Option Parts := do
  let (p, cs) ← readDateTime s.toList
  let cs ← expect '.' cs
  let (millisecond, cs) ← digits 3 0 cs
  let cs ← expect 'Z' cs
  if cs = [] then pure { p with millisecond := millisecond } else none

/-- The canonical texts with years from `0001`, the fields in their ranges. -/
def isUtcInstant (s : String) : Bool :=
  match read s with
  | some p => decide (1 ≤ p.year) && decide p.InRange
  | none => false

/-- `Date.parse`, on texts of that shape; the days of a month are not checked. -/
def parse (s : String) : Option ℤ :=
  match read s with
  | some p => if p.InRange then some (epoch p) else none
  | none => none

theorem readDateTime_text {p : Parts} (h : p.InRange) (hmin : 0 ≤ p.year) (hmax : p.year ≤ 9999)
    (cs : List Char) :
    readDateTime (yearText p.year ++ '-' :: (padded 2 p.month ++ '-' :: (padded 2 p.day
      ++ 'T' :: (padded 2 p.hour ++ ':' :: (padded 2 p.minute ++ ':' :: (padded 2 p.second
      ++ cs))))))
      = some ({ p with millisecond := 0 }, cs) := by
  have hyear : yearText p.year = padded 4 p.year.toNat := by rw [yearText, if_pos ⟨hmin, hmax⟩]
  have hyear' : ((p.year.toNat % 10 ^ 4 : ℕ) : ℤ) = p.year := by omega
  obtain ⟨_, hmonth, _, hday, hhour, hminute, hsecond, _⟩ := h
  have hmonth' : p.month % 10 ^ 2 = p.month := by omega
  have hday' : p.day % 10 ^ 2 = p.day := by omega
  have hhour' : p.hour % 10 ^ 2 = p.hour := by omega
  have hminute' : p.minute % 10 ^ 2 = p.minute := by omega
  have hsecond' : p.second % 10 ^ 2 = p.second := by omega
  simp only [readDateTime, hyear, digits_padded, expect_cons, Option.bind_eq_bind,
    Option.bind_some, hyear', hmonth', hday', hhour', hminute', hsecond', Option.pure_def]

/-- The text of fields with a four-digit year is read back. -/
theorem read_text {p : Parts} (h : p.InRange) (hmin : 0 ≤ p.year) (hmax : p.year ≤ 9999) :
    read p.text = some p := by
  have hms : p.millisecond % 10 ^ 3 = p.millisecond := by
    have hle := h.millisecond_le
    omega
  simp only [read, Parts.text, String.toList_ofList, readDateTime_text h hmin hmax,
    Option.bind_eq_bind, Option.bind_some, expect_cons, digits_padded, hms, if_pos,
    Option.pure_def]

theorem isUtcInstant_toISOString {t : ℤ} (hmin : minFourDigitYear ≤ t)
    (hmax : t ≤ maxFourDigitYear) : isUtcInstant (toISOString t) = true := by
  obtain ⟨hlow, hhigh⟩ := year_of_range hmin hmax
  have hrange := parts_inRange t
  rw [isUtcInstant, toISOString, read_text hrange (by omega) hhigh]
  simp [hlow, hrange]

theorem parse_toISOString {t : ℤ} (hmin : minFourDigitYear ≤ t) (hmax : t ≤ maxFourDigitYear) :
    parse (toISOString t) = some t := by
  obtain ⟨hlow, hhigh⟩ := year_of_range hmin hmax
  have hrange := parts_inRange t
  rw [parse, toISOString, read_text hrange (by omega) hhigh]
  simp [hrange, epoch_parts]

theorem digits_lt {count value v : ℕ} {cs rest : List Char} {bound : ℕ} (hvalue : value < bound)
    (h : digits count value cs = some (v, rest)) : v < bound * 10 ^ count := by
  induction count generalizing value cs bound with
  | zero =>
    simp only [digits, Option.some.injEq, Prod.mk.injEq] at h
    rw [← h.1, Nat.pow_zero, Nat.mul_one]
    exact hvalue
  | succ count ih =>
    cases cs with
    | nil => cases h
    | cons c cs =>
      rw [digits, Option.bind_eq_some_iff] at h
      obtain ⟨d, hd, hrest⟩ := h
      have hlt : d < 10 := by
        unfold digit? at hd
        split at hd
        · rename_i hdigit
          cases hd
          simp only [Char.isDigit, Bool.and_eq_true, decide_eq_true_eq] at hdigit
          have hle : c.val.toNat ≤ 57 := UInt32.le_iff_toNat_le.mp hdigit.2
          change c.val.toNat - 48 < 10
          omega
        · cases hd
      have hbound : 10 * value + d < bound * 10 := by omega
      have hnext := ih hbound hrest
      rw [Nat.pow_succ, Nat.mul_comm (10 ^ count) 10, ← Nat.mul_assoc]
      exact hnext

theorem year_of_readDateTime {cs rest : List Char} {p : Parts}
    (h : readDateTime cs = some (p, rest)) : 0 ≤ p.year ∧ p.year ≤ 9999 := by
  unfold readDateTime at h
  cases hyear : digits 4 0 cs with
  | none => simp [hyear] at h
  | some year =>
    have hlt := digits_lt Nat.zero_lt_one hyear
    have hsame : p.year = year.1 := by
      simp only [hyear, Option.bind_eq_bind, Option.bind_some, Option.bind_eq_some_iff,
        Option.pure_def, Prod.exists, Option.some.injEq, Prod.mk.injEq] at h
      grind
    omega

theorem year_of_read {s : String} {p : Parts} (h : read s = some p) :
    0 ≤ p.year ∧ p.year ≤ 9999 := by
  unfold read at h
  simp only [Option.bind_eq_bind, Option.bind_eq_some_iff, Option.pure_def, Prod.exists] at h
  obtain ⟨q, _, hq, _, _, _, _, _, _, _, hp⟩ := h
  have hyear := year_of_readDateTime hq
  split at hp
  · cases hp
    exact hyear
  · cases hp

theorem parse_range {s : String} (h : isUtcInstant s = true) :
    ∃ t, parse s = some t ∧ minFourDigitYear ≤ t ∧ t ≤ maxFourDigitYear := by
  unfold isUtcInstant at h
  cases hread : read s with
  | none => simp [hread] at h
  | some p =>
    simp only [hread, Bool.and_eq_true, decide_eq_true_eq] at h
    have hyear := year_of_read hread
    refine ⟨epoch p, ?_, epoch_range h.2 h.1 hyear.2⟩
    simp only [parse, hread, h.2, if_true]

end Instant

end TianmaCoder
