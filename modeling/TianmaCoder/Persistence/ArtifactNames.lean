import Mathlib.Data.List.TakeWhile
import TianmaCoder.Lib.Grid
import TianmaCoder.Lib.Number

/-!
# The names of session artifacts

A session id becomes one path segment, in which every code unit that is not safe is escaped, and
a generation of its log becomes a file name, which is parsed back. Texts are lists of code units,
so a lone surrogate is a text like any other.

## Main definitions

* `encodeSegment`, `decodeSegment` — the path segment of a text, and what it stands for.
* `generationLogFilename`, `parseGenerationLogFilename` — the file name of a generation.

## Main results

* `decode_encodeSegment` — a segment stands for one text.
* `parseGenerationLogFilename_eq_some` — the parser accepts what the formatter makes.
* `names_unambiguous` — both.
-/

namespace TianmaCoder

namespace Artifacts

/-- The code units of an ASCII text. -/
def units (s : String) : List UInt16 := s.toList.map fun c => UInt16.ofNat c.toNat

/-! ## Path segments -/

/-- `[A-Za-z0-9._-]`. -/
def isSafe (u : UInt16) : Bool :=
  (65 ≤ u && u ≤ 90) || (97 ≤ u && u ≤ 122) || (48 ≤ u && u ≤ 57) || u = 46 || u = 95 || u = 45

/-- `code.toString(16).toUpperCase().padStart(4, '0')`. -/
def hexText (code : ℕ) : List UInt16 :=
  let digits := (Nat.toDigits 16 code).map fun c => UInt16.ofNat c.toUpper.toNat
  List.replicate (4 - digits.length) 48 ++ digits

/-- A safe code unit stays, any other one is escaped. -/
def encodeUnit (u : UInt16) : List UInt16 :=
  if u ≠ 126 ∧ isSafe u then [u] else 126 :: hexText u.toNat

def encodeSegment (raw : List UInt16) : Except String (List UInt16) :=
  if raw.length = 0 then .error "cannot encode an empty path segment"
  else if raw = units "." then .ok (units "~002E")
  else if raw = units ".." then .ok (units "~002E~002E")
  else .ok (raw.flatMap encodeUnit)

/-- The value of an upper case hexadecimal digit. -/
def hexValue (u : UInt16) : ℕ := if u ≤ 57 then u.toNat - 48 else u.toNat - 55

/-- What a segment stands for. -/
def decodeSegment : List UInt16 → List UInt16
  | 126 :: a :: b :: c :: d :: rest =>
    UInt16.ofNat (((hexValue a * 16 + hexValue b) * 16 + hexValue c) * 16 + hexValue d) ::
      decodeSegment rest
  | u :: rest => u :: decodeSegment rest
  | [] => []

/-- The digit of a value below 16. -/
def hexUnit (n : ℕ) : UInt16 := UInt16.ofNat (Nat.digitChar n).toUpper.toNat

theorem hexUnit_spec {n : ℕ} (h : n < 16) :
    hexValue (hexUnit n) = n ∧ isSafe (hexUnit n) = true ∧ hexUnit n ≠ 126 := by
  have hall : ∀ n < 16, hexValue (hexUnit n) = n ∧ isSafe (hexUnit n) = true ∧
      hexUnit n ≠ 126 := by decide
  exact hall n h

theorem hexText_eq {n : ℕ} (h : n < 65536) :
    hexText n = [hexUnit (n / 16 / 16 / 16), hexUnit (n / 16 / 16 % 16), hexUnit (n / 16 % 16),
      hexUnit (n % 16)] := by
  have hbase : (1 : ℕ) < 16 := by decide
  have hzero : hexUnit 0 = 48 := by decide
  have hdigit : ∀ d, UInt16.ofNat (Nat.digitChar d).toUpper.toNat = hexUnit d := fun _ => rfl
  have hlast : n / 16 / 16 / 16 < 16 := by omega
  unfold hexText
  rw [Nat.toDigits_eq_if hbase, Nat.toDigits_eq_if hbase (n := n / 16),
    Nat.toDigits_eq_if hbase (n := n / 16 / 16), Nat.toDigits_of_lt_base hlast]
  by_cases hone : n < 16
  · have hmod : n % 16 = n := Nat.mod_eq_of_lt hone
    have hnil : n / 16 = 0 := Nat.div_eq_of_lt hone
    simp [hone, hmod, hnil, hzero, hdigit]
  · by_cases htwo : n / 16 < 16
    · have hmod : n / 16 % 16 = n / 16 := Nat.mod_eq_of_lt htwo
      have hnil : n / 16 / 16 = 0 := Nat.div_eq_of_lt htwo
      simp [hone, htwo, hmod, hnil, hzero, hdigit]
    · by_cases hthree : n / 16 / 16 < 16
      · have hmod : n / 16 / 16 % 16 = n / 16 / 16 := Nat.mod_eq_of_lt hthree
        have hnil : n / 16 / 16 / 16 = 0 := Nat.div_eq_of_lt hthree
        simp [hone, htwo, hthree, hmod, hnil, hzero, hdigit]
      · simp [hone, htwo, hthree, hdigit]

/-- What a code unit is encoded to is read back in front of anything. -/
theorem decode_encodeUnit (u : UInt16) (rest : List UInt16) :
    decodeSegment (encodeUnit u ++ rest) = u :: decodeSegment rest := by
  unfold encodeUnit
  split
  · next hsafe =>
    rw [List.singleton_append, decodeSegment.eq_2]
    rintro a b c d rest' rfl
    exact absurd rfl hsafe.1
  · have hlt : u.toNat < 65536 := u.toNat_lt
    rw [hexText_eq hlt]
    simp only [List.cons_append, List.nil_append, decodeSegment]
    rw [(hexUnit_spec (by omega)).1, (hexUnit_spec (by omega)).1, (hexUnit_spec (by omega)).1,
      (hexUnit_spec (by omega)).1]
    have hvalue : ((u.toNat / 16 / 16 / 16 * 16 + u.toNat / 16 / 16 % 16) * 16 +
        u.toNat / 16 % 16) * 16 + u.toNat % 16 = u.toNat := by omega
    rw [hvalue, UInt16.ofNat_toNat]

theorem decode_flatMap (raw : List UInt16) : decodeSegment (raw.flatMap encodeUnit) = raw := by
  induction raw with
  | nil => rfl
  | cons u raw ih => rw [List.flatMap_cons, decode_encodeUnit, ih]

theorem decode_encodeSegment {raw segment : List UInt16} (h : encodeSegment raw = .ok segment) :
    decodeSegment segment = raw := by
  unfold encodeSegment at h
  split_ifs at h with hempty hdot hdots
  · cases h
    rw [hdot]
    decide
  · cases h
    rw [hdots]
    decide
  · cases h
    exact decode_flatMap raw

/-- ASCII letters, digits, `.`, `_`, `-` and `~`. -/
def IsSegmentUnit (u : UInt16) : Prop := isSafe u = true ∨ u = 126

theorem isSegmentUnit_of_mem {raw : List UInt16} {u : UInt16} (h : u ∈ raw.flatMap encodeUnit) :
    IsSegmentUnit u := by
  obtain ⟨v, -, hu⟩ := List.mem_flatMap.mp h
  unfold encodeUnit at hu
  split at hu
  · next hsafe =>
    rw [List.mem_singleton] at hu
    exact .inl (hu ▸ hsafe.2)
  · have hlt : v.toNat < 65536 := v.toNat_lt
    rw [hexText_eq hlt] at hu
    simp only [List.mem_cons, List.not_mem_nil, or_false] at hu
    rcases hu with hu | hu | hu | hu | hu
    · exact .inr hu
    all_goals
      rw [hu]
      exact .inl (hexUnit_spec (by omega)).2.1

/-- A segment is a text of safe units that is no relative path. -/
theorem encodeSegment_ok {raw : List UInt16} (h : raw ≠ []) :
    ∃ segment, encodeSegment raw = .ok segment ∧ (∀ u ∈ segment, IsSegmentUnit u) ∧
      segment ≠ units "." ∧ segment ≠ units ".." := by
  have hlength : raw.length ≠ 0 := fun hzero => h (List.eq_nil_of_length_eq_zero hzero)
  unfold encodeSegment
  rw [if_neg hlength]
  split_ifs with hdot hdots
  · refine ⟨_, rfl, ?_, by decide, by decide⟩
    simp [units, IsSegmentUnit, isSafe]
  · refine ⟨_, rfl, ?_, by decide, by decide⟩
    simp [units, IsSegmentUnit, isSafe]
  · refine ⟨_, rfl, fun u hu => isSegmentUnit_of_mem hu, ?_, ?_⟩
    · -- a segment that is a dot stands for a dot, which is encoded otherwise
      intro hsegment
      apply hdot
      rw [← decode_flatMap raw, hsegment]
      decide
    · intro hsegment
      apply hdots
      rw [← decode_flatMap raw, hsegment]
      decide

/-! ## Generations of the log -/

inductive JsonlCompression where
  | zstd
  | none
deriving DecidableEq

def compressionSuffix : JsonlCompression → List UInt16
  | .zstd => units ".zstd"
  | .none => []

/-- `sessionFormatVersion(value, label)`; the negative zero is refused. -/
def sessionFormatVersion (value : Number) (label : String) : Except String ℕ :=
  match value with
  | .finite q =>
    if value.isSafeInteger = true ∧ 0 ≤ q then .ok q.num.toNat
    else .error s!"{label} must be a non-negative safe integer"
  | _ => .error s!"{label} must be a non-negative safe integer"

/-- A number in a template. -/
def decimalText (n : ℕ) : List UInt16 := (Nat.toDigits 10 n).map fun c => UInt16.ofNat c.toNat

def sessionFormatLogFilename (version : Number) : Except String (List UInt16) := do
  let generation ← sessionFormatVersion version "Session log generation version"
  .ok (if generation = 0 then units "session.jsonl"
    else units "session.v" ++ decimalText generation ++ units ".jsonl")

def isDigit (u : UInt16) : Bool := 48 ≤ u && u ≤ 57

def decimalValue (digits : List UInt16) : ℕ :=
  digits.foldl (fun n u => 10 * n + (u.toNat - 48)) 0

/-- `Number(digits)`: the nearest double, or the infinity. -/
def numberOf (r : Rounding) (digits : List UInt16) : Number :=
  if decimalValue digits < (2 ^ 54 - 1) * 2 ^ 970 then .finite (r.round (decimalValue digits))
  else .posInfinity

/-- `/^session(?:\.v([1-9][0-9]*))?\.jsonl$/u`: no match, or what the group matched. -/
def canonicalLogFilename (filename : List UInt16) : Option (Option (List UInt16)) :=
  match filename.dropPrefix? (units "session") with
  | none => none
  | some rest =>
    if rest = units ".jsonl" then some none
    else
      match rest.dropPrefix? (units ".v") with
      | none => none
      | some tagged =>
        let digits := tagged.takeWhile isDigit
        if digits ≠ [] ∧ digits.head? ≠ some 48 ∧ tagged.dropWhile isDigit = units ".jsonl" then
          some (some digits)
        else none

def parseSessionFormatLogFilename (r : Rounding) (filename : List UInt16) : Option Number :=
  match canonicalLogFilename filename with
  | none => none
  | some none => some (.finite 0)
  | some (some digits) =>
    let version := numberOf r digits
    if version.isSafeInteger then some version else none

def generationLogFilename (version : Number) (compression : JsonlCompression) :
    Except String (List UInt16) := do
  let filename ← sessionFormatLogFilename version
  .ok (filename ++ compressionSuffix compression)

def parseGenerationLogFilename (r : Rounding) (filename : List UInt16)
    (compression : JsonlCompression) : Option Number :=
  let suffix := compressionSuffix compression
  if ¬suffix.isSuffixOf filename then none
  else parseSessionFormatLogFilename r (filename.take (filename.length - suffix.length))

/-! ### Decimal texts -/

/-- The digits of a version: they do not start with a zero. -/
structure IsDecimal (digits : List UInt16) : Prop where
  nonempty : digits ≠ []
  digit : ∀ u ∈ digits, isDigit u = true
  leading : digits.head? ≠ some 48

theorem isDigit_iff {u : UInt16} : isDigit u = true ↔ 48 ≤ u.toNat ∧ u.toNat ≤ 57 := by
  simp only [isDigit, Bool.and_eq_true, decide_eq_true_eq, UInt16.le_iff_toNat_le]
  exact Iff.rfl

theorem digitUnit_spec {d : ℕ} (h : d < 10) :
    (UInt16.ofNat (Nat.digitChar d).toNat).toNat = 48 + d := by
  have hall : ∀ d < 10, (UInt16.ofNat (Nat.digitChar d).toNat).toNat = 48 + d := by decide
  exact hall d h

theorem decimalText_of_lt {n : ℕ} (h : n < 10) :
    decimalText n = [UInt16.ofNat (Nat.digitChar n).toNat] := by
  rw [decimalText, Nat.toDigits_of_lt_base h]
  rfl

theorem decimalText_of_le {n : ℕ} (h : 10 ≤ n) :
    decimalText n = decimalText (n / 10) ++ [UInt16.ofNat (Nat.digitChar (n % 10)).toNat] := by
  rw [decimalText, Nat.toDigits_of_base_le (by decide) h, List.map_append]
  rfl

theorem decimalValue_snoc (digits : List UInt16) (u : UInt16) :
    decimalValue (digits ++ [u]) = 10 * decimalValue digits + (u.toNat - 48) := by
  simp [decimalValue]

/-- The text of a positive number is a decimal text of that value. -/
theorem decimalText_spec {n : ℕ} (h : 0 < n) :
    IsDecimal (decimalText n) ∧ decimalValue (decimalText n) = n := by
  induction n using Nat.strongRecOn with
  | ind n ih =>
    by_cases hsmall : n < 10
    · have hunit := digitUnit_spec hsmall
      rw [decimalText_of_lt hsmall]
      refine ⟨⟨by simp, ?_, ?_⟩, ?_⟩
      · intro u hu
        rw [List.mem_singleton] at hu
        rw [hu, isDigit_iff]
        omega
      · intro hzero
        rw [List.head?_cons, Option.some.injEq] at hzero
        rw [hzero] at hunit
        have h48 : (48 : UInt16).toNat = 48 := rfl
        omega
      · rw [← List.nil_append [_], decimalValue_snoc, hunit]
        simp [decimalValue]
    · obtain ⟨hdecimal, hvalue⟩ := ih (n / 10) (by omega) (by omega)
      have hunit := digitUnit_spec (Nat.mod_lt n (show 0 < 10 by decide))
      rw [decimalText_of_le (by omega)]
      refine ⟨⟨by simp, ?_, ?_⟩, ?_⟩
      · intro u hu
        rcases List.mem_append.mp hu with hu | hu
        · exact hdecimal.digit u hu
        · rw [List.mem_singleton.mp hu, isDigit_iff]
          omega
      · rw [List.head?_append_of_ne_nil _ hdecimal.nonempty]
        exact hdecimal.leading
      · rw [decimalValue_snoc, hvalue, hunit]
        omega

theorem digitUnit_eq {u : UInt16} (h : isDigit u = true) :
    UInt16.ofNat (Nat.digitChar (u.toNat - 48)).toNat = u := by
  rw [isDigit_iff] at h
  have hunit := digitUnit_spec (show u.toNat - 48 < 10 by omega)
  apply UInt16.toNat_inj.mp
  omega

theorem decimalText_decimalValue {digits : List UInt16} (h : IsDecimal digits) :
    0 < decimalValue digits ∧ decimalText (decimalValue digits) = digits := by
  induction digits using List.reverseRecOn with
  | nil => exact absurd rfl h.nonempty
  | append_singleton front u ih =>
    have hu := h.digit u (by simp)
    have hunit := digitUnit_eq hu
    rw [isDigit_iff] at hu
    rw [decimalValue_snoc]
    by_cases hfront : front = []
    · subst front
      have hne : u.toNat ≠ 48 := by
        intro hzero
        apply h.leading
        rw [List.nil_append, List.head?_cons, Option.some.injEq]
        exact UInt16.toNat_inj.mp hzero
      have hvalue : 10 * decimalValue [] + (u.toNat - 48) = u.toNat - 48 := by simp [decimalValue]
      rw [hvalue, decimalText_of_lt (by omega), hunit]
      exact ⟨by omega, rfl⟩
    · have hleading := h.leading
      rw [List.head?_append_of_ne_nil _ hfront] at hleading
      obtain ⟨hpositive, htext⟩ :=
        ih ⟨hfront, fun v hv => h.digit v (List.mem_append_left _ hv), hleading⟩
      have hdiv : (10 * decimalValue front + (u.toNat - 48)) / 10 = decimalValue front := by omega
      have hmod : (10 * decimalValue front + (u.toNat - 48)) % 10 = u.toNat - 48 := by omega
      rw [decimalText_of_le (by omega), hdiv, hmod, htext, hunit]
      exact ⟨by omega, rfl⟩

/-! ### The parser and the formatter -/

/-- The name of a generation. -/
def logName (n : ℕ) : List UInt16 :=
  if n = 0 then units "session.jsonl"
  else units "session.v" ++ decimalText n ++ units ".jsonl"

theorem canonicalLogFilename_untagged : canonicalLogFilename (units "session.jsonl") = some none := by
  decide

theorem canonicalLogFilename_tagged {digits : List UInt16} (h : IsDecimal digits) :
    canonicalLogFilename (units "session.v" ++ digits ++ units ".jsonl") = some (some digits) := by
  have hsplit : units "session.v" ++ digits ++ units ".jsonl" =
      units "session" ++ (units ".v" ++ (digits ++ units ".jsonl")) := by
    have hliteral : units "session.v" = units "session" ++ units ".v" := by decide
    simp only [hliteral, List.append_assoc]
  have hne : units ".v" ++ (digits ++ units ".jsonl") ≠ units ".jsonl" := by
    intro heq
    have hsecond := congrArg (fun us => us[1]?) heq
    rw [List.getElem?_append_left (by decide)] at hsecond
    exact absurd hsecond (by decide)
  have htake : (digits ++ units ".jsonl").takeWhile isDigit = digits := by
    have hstop : (units ".jsonl").takeWhile isDigit = [] := by decide
    rw [List.takeWhile_append_of_pos h.digit, hstop, List.append_nil]
  have hdrop : (digits ++ units ".jsonl").dropWhile isDigit = units ".jsonl" := by
    rw [List.dropWhile_append_of_pos h.digit]
    decide
  unfold canonicalLogFilename
  rw [hsplit, List.dropPrefix?_append_of_beq _ (by simp)]
  simp only [if_neg hne]
  rw [List.dropPrefix?_append_of_beq _ (by simp)]
  simp only [htake, hdrop]
  rw [if_pos ⟨h.nonempty, h.leading, trivial⟩]

/-- What the pattern matches. -/
theorem canonicalLogFilename_cases {filename : List UInt16} {group : Option (List UInt16)}
    (h : canonicalLogFilename filename = some group) :
    (group = none ∧ filename = units "session.jsonl") ∨
      ∃ digits, group = some digits ∧ IsDecimal digits ∧
        filename = units "session.v" ++ digits ++ units ".jsonl" := by
  unfold canonicalLogFilename at h
  split at h
  · cases h
  · next rest hrest =>
    obtain ⟨front, hfilename, hfront⟩ := List.dropPrefix?_eq_some_iff.mp hrest
    rw [hfilename, beq_iff_eq.mp hfront]
    split_ifs at h with huntagged
    · cases h
      rw [huntagged]
      exact .inl ⟨rfl, by decide⟩
    · split at h
      · cases h
      · next tagged htagged =>
        obtain ⟨tag, hrest', htag⟩ := List.dropPrefix?_eq_some_iff.mp htagged
        dsimp only at h
        split_ifs at h with hdigits
        cases h
        refine .inr ⟨_, rfl, ⟨hdigits.1, ?_, hdigits.2.1⟩, ?_⟩
        · intro u hu
          exact List.mem_takeWhile_imp hu
        · have hsplit := List.takeWhile_append_dropWhile (p := isDigit) (l := tagged)
          have hliteral : units "session.v" = units "session" ++ units ".v" := by decide
          rw [hdigits.2.2] at hsplit
          rw [hrest', beq_iff_eq.mp htag, hliteral, List.append_assoc, List.append_assoc, hsplit]

/-- `Number.MAX_SAFE_INTEGER`. -/
def maxSafe : ℕ := 2 ^ 53 - 1

theorem isSafeInteger_ofNat {n : ℕ} (h : n ≤ maxSafe) : (Number.ofNat n).isSafeInteger = true := by
  have hhigh : (n : ℤ) ≤ Number.maxSafeInteger := by
    simp only [maxSafe, Number.maxSafeInteger] at h ⊢
    omega
  have hlow : -Number.maxSafeInteger ≤ (n : ℤ) := by
    simp only [Number.maxSafeInteger]
    omega
  simp [Number.isSafeInteger, Number.ofNat, hhigh, hlow]

/-- A safe number is read as it is written. -/
theorem numberOf_safe (r : Rounding) {digits : List UInt16} (h : decimalValue digits ≤ maxSafe) :
    numberOf r digits = Number.ofNat (decimalValue digits) := by
  have hlimit : ∀ k, 53 ≤ k → maxSafe < (2 ^ 54 - 1) * 2 ^ k := by
    intro k hk
    have hpow : 2 ^ 53 ≤ 2 ^ k := Nat.pow_le_pow_right (by decide) hk
    have hmul : 2 ^ k ≤ (2 ^ 54 - 1) * 2 ^ k := Nat.le_mul_of_pos_left _ (by decide)
    exact lt_of_lt_of_le (by decide) (hpow.trans hmul)
  have habs : |((decimalValue digits : ℕ) : ℤ)| ≤ 2 ^ 53 := by
    rw [Nat.abs_cast]
    unfold maxSafe at h
    omega
  have hexact := r.exact _ habs
  rw [Int.cast_natCast] at hexact
  rw [numberOf, if_pos (lt_of_le_of_lt h (hlimit 970 (by decide))), hexact, Number.ofNat]

theorem numberOf_large (r : Rounding) {digits : List UInt16}
    (h : maxSafe < decimalValue digits) : (numberOf r digits).isSafeInteger = false := by
  unfold numberOf
  split
  · have hle : ((2 ^ 53 : ℤ) : ℚ) ≤ ((decimalValue digits : ℕ) : ℚ) := by
      have hnat : 2 ^ 53 ≤ decimalValue digits := by
        unfold maxSafe at h
        omega
      exact_mod_cast hnat
    have hround := r.mono hle
    rw [r.exact _ (by norm_num)] at hround
    by_contra hsafe
    rw [Bool.not_eq_false] at hsafe
    simp only [Number.isSafeInteger, Bool.decide_and, Bool.and_eq_true, decide_eq_true_eq] at hsafe
    obtain ⟨hden, -, hnum⟩ := hsafe
    have hvalue := Rat.coe_int_num_of_den_eq_one hden
    rw [← hvalue] at hround
    have hint : (2 ^ 53 : ℤ) ≤ (r.round (decimalValue digits)).num := by exact_mod_cast hround
    unfold Number.maxSafeInteger at hnum
    omega
  · rfl

theorem parseSessionFormatLogFilename_eq_some (r : Rounding) {filename : List UInt16} {v : Number} :
    parseSessionFormatLogFilename r filename = some v ↔
      ∃ n ≤ maxSafe, v = Number.ofNat n ∧ filename = logName n := by
  constructor
  · intro h
    unfold parseSessionFormatLogFilename at h
    split at h
    · cases h
    · next hcanonical =>
      obtain ⟨-, hname⟩ | ⟨_, hgroup, -⟩ := canonicalLogFilename_cases hcanonical
      · cases h
        exact ⟨0, Nat.zero_le _, by simp [Number.ofNat], hname⟩
      · cases hgroup
    · next digits hcanonical =>
      obtain ⟨hgroup, -⟩ | ⟨_, hgroup, hdecimal, hname⟩ := canonicalLogFilename_cases hcanonical
      · cases hgroup
      · cases hgroup
        obtain ⟨hpositive, htext⟩ := decimalText_decimalValue hdecimal
        by_cases hsafe : decimalValue digits ≤ maxSafe
        · dsimp only at h
          rw [numberOf_safe r hsafe, if_pos (isSafeInteger_ofNat hsafe), Option.some.injEq] at h
          refine ⟨_, hsafe, h.symm, ?_⟩
          rw [logName, if_neg hpositive.ne', htext, hname]
        · dsimp only at h
          rw [numberOf_large r (not_le.mp hsafe)] at h
          cases h
  · rintro ⟨n, hn, rfl, rfl⟩
    unfold parseSessionFormatLogFilename logName
    by_cases hzero : n = 0
    · rw [if_pos hzero, canonicalLogFilename_untagged, hzero]
      simp [Number.ofNat]
    · obtain ⟨hdecimal, hvalue⟩ := decimalText_spec (Nat.pos_of_ne_zero hzero)
      rw [if_neg hzero, canonicalLogFilename_tagged hdecimal]
      have hnumber := numberOf_safe r (hvalue.symm ▸ hn)
      rw [hvalue] at hnumber
      simp only [hnumber, isSafeInteger_ofNat hn, if_true]

theorem generationLogFilename_ofNat {n : ℕ} (h : n ≤ maxSafe) (compression : JsonlCompression) :
    generationLogFilename (Number.ofNat n) compression =
      .ok (logName n ++ compressionSuffix compression) := by
  have hversion : sessionFormatVersion (Number.ofNat n) "Session log generation version" = .ok n := by
    have hsafe := isSafeInteger_ofNat h
    unfold sessionFormatVersion Number.ofNat at *
    simp [hsafe]
  unfold generationLogFilename sessionFormatLogFilename
  rw [hversion]
  rfl

/-- The parser of a generation's name reads the version that the formatter gave it. -/
theorem parseGenerationLogFilename_eq_some (r : Rounding) {filename : List UInt16}
    {compression : JsonlCompression} {v : Number} :
    parseGenerationLogFilename r filename compression = some v ↔
      (∃ n ≤ maxSafe, v = Number.ofNat n) ∧
        generationLogFilename v compression = .ok filename := by
  have hsuffix : parseGenerationLogFilename r filename compression = some v ↔
      ∃ front, filename = front ++ compressionSuffix compression ∧
        parseSessionFormatLogFilename r front = some v := by
    unfold parseGenerationLogFilename
    dsimp only
    constructor
    · intro h
      split_ifs at h with hends
      obtain ⟨front, rfl⟩ := List.isSuffixOf_iff_suffix.mp hends
      rw [List.length_append, Nat.add_sub_cancel, List.take_left] at h
      exact ⟨front, rfl, h⟩
    · rintro ⟨front, rfl, h⟩
      have hends := List.isSuffixOf_iff_suffix.mpr
        (List.suffix_append front (compressionSuffix compression))
      rw [if_neg (not_not.mpr hends), List.length_append, Nat.add_sub_cancel, List.take_left, h]
  rw [hsuffix]
  constructor
  · rintro ⟨front, rfl, hparsed⟩
    obtain ⟨n, hn, rfl, rfl⟩ := (parseSessionFormatLogFilename_eq_some r).mp hparsed
    exact ⟨⟨n, hn, rfl⟩, generationLogFilename_ofNat hn compression⟩
  · rintro ⟨⟨n, hn, rfl⟩, hname⟩
    rw [generationLogFilename_ofNat hn, Except.ok.injEq] at hname
    exact ⟨logName n, hname.symm,
      (parseSessionFormatLogFilename_eq_some r).mpr ⟨n, hn, rfl, rfl⟩⟩

theorem getLast_logName (n : ℕ) : (logName n).getLast? = some 108 := by
  unfold logName
  split
  · decide
  · rw [List.getLast?_append_of_ne_nil _ (by decide)]
    decide

theorem compression_unique {m n : ℕ} {c d : JsonlCompression}
    (h : logName m ++ compressionSuffix c = logName n ++ compressionSuffix d) : c = d := by
  have hlast := congrArg List.getLast? h
  cases c <;> cases d <;> try rfl
  all_goals
    simp only [compressionSuffix, List.append_nil, getLast_logName] at hlast
    rw [List.getLast?_append_of_ne_nil _ (by decide)] at hlast
    exact absurd hlast (by decide)

/-- Segments are injective, safe and decodable, and the names of generations are exactly what
their parser reads, each for one version and one compression. -/
theorem names_unambiguous (r : Rounding) :
    (∀ raw : List UInt16, raw ≠ [] → ∃ segment, encodeSegment raw = .ok segment ∧
      (∀ u ∈ segment, IsSegmentUnit u) ∧ segment ≠ units "." ∧ segment ≠ units ".." ∧
      decodeSegment segment = raw) ∧
    (∀ a b segment, encodeSegment a = .ok segment → encodeSegment b = .ok segment → a = b) ∧
    (∀ filename c v, parseGenerationLogFilename r filename c = some v ↔
      (∃ n ≤ maxSafe, v = Number.ofNat n) ∧ generationLogFilename v c = .ok filename) ∧
    ∀ filename c d v w, parseGenerationLogFilename r filename c = some v →
      parseGenerationLogFilename r filename d = some w → c = d ∧ v = w := by
  refine ⟨?_, ?_, fun filename c v => parseGenerationLogFilename_eq_some r, ?_⟩
  · intro raw hraw
    obtain ⟨segment, hsegment, hsafe, hdot, hdots⟩ := encodeSegment_ok hraw
    exact ⟨segment, hsegment, hsafe, hdot, hdots, decode_encodeSegment hsegment⟩
  · intro a b segment ha hb
    rw [← decode_encodeSegment ha, decode_encodeSegment hb]
  · intro filename c d v w hc hd
    obtain ⟨⟨m, hm, hv⟩, hname⟩ := (parseGenerationLogFilename_eq_some r).mp hc
    obtain ⟨⟨n, hn, hw⟩, hname'⟩ := (parseGenerationLogFilename_eq_some r).mp hd
    rw [hv, generationLogFilename_ofNat hm, Except.ok.injEq] at hname
    rw [hw, generationLogFilename_ofNat hn, Except.ok.injEq] at hname'
    have hsame : c = d := compression_unique (hname.trans hname'.symm)
    subst d
    rw [hc, Option.some.injEq] at hd
    exact ⟨rfl, hd⟩

end Artifacts

end TianmaCoder
