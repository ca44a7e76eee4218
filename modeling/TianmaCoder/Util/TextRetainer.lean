import TianmaCoder.Lib.Utf8
import TianmaCoder.Lib.Checked
import Mathlib.Data.Rat.Defs

/-!
# Bounded text retention

A retainer keeps the first bytes of a stream, the last ones, or both. The prefix fills up to its
cap; the suffix is a window of chunks that slides over the stream. At the end the two sides are
cut to whole characters and decoded apart, or as one where nothing is omitted between them.

## Main definitions

* `TextRetentionStrategy`, `TextRetainer` — the caps and the state.
* `TextRetainer.push`, `TextRetainer.finish` — the operations.
* `TextRetainer.Retains` — what the retainer holds of the stream so far.

## Main results

* `TextRetainer.Retains.pushAll` — what is held depends on the bytes alone.
* `TextRetainer.finish_within`, `TextRetainer.finish_beyond` — the result in terms of the stream.
-/

namespace TianmaCoder

namespace OutputRetention

open Checked

/-! ## Decoding -/

/-- The byte order mark. -/
def BOM : List UInt8 := [0xEF, 0xBB, 0xBF]

/-- `decoder.decode(bytes)`: a byte order mark in front is dropped. -/
def decode (bytes : List UInt8) : List Char :=
  if BOM.isPrefixOf bytes then Utf8.decode (bytes.drop 3) else Utf8.decode bytes

/-- `(b & 0xc0) === 0x80`. -/
def isContinuation (b : UInt8) : Bool := b &&& 0xC0 == 0x80

/-- The walk of `trimTrailingPartialUtf8` back from index `i - 1`; the result is one more than
the index it stops at. -/
def scanBack (bytes : List UInt8) : ℕ → ℕ
  | 0 => 0
  | i + 1 =>
    if isContinuation (bytes.getD i 0) && bytes.length - i ≤ 3 then scanBack bytes i else i + 1

/-- The length a lead byte declares; none of an invalid one. -/
def expected (lead : UInt8) : ℕ :=
  if lead < 0x80 then 1 else if lead < 0xE0 then 2 else if lead < 0xF0 then 3
  else if lead < 0xF8 then 4 else 0

/-- Drop a trailing incomplete sequence. -/
def trimTrailingPartialUtf8 (bytes : List UInt8) : List UInt8 :=
  match scanBack bytes bytes.length with
  | 0 => bytes
  | i + 1 =>
    if expected (bytes.getD i 0) = 0 then bytes
    else if bytes.length - i < expected (bytes.getD i 0) then bytes.take i else bytes

/-- Drop leading continuation bytes. -/
def trimLeadingContinuationUtf8 (bytes : List UInt8) : List UInt8 :=
  bytes.dropWhile isContinuation

/-! ## The retainer -/

/-- Keep a prefix, a suffix, or both, counted in bytes. -/
inductive TextRetentionStrategy where
  | head (maxBytes : ℚ)
  | tail (maxBytes : ℚ)
  | headTail (headBytes tailBytes : ℚ)
  deriving DecidableEq

/-- A non-negative integer. -/
def assertBudget (value : ℚ) (name : String) : Except String ℕ :=
  if value.den ≠ 1 ∨ value < 0 then throw s!"{name} must be a non-negative integer"
  else return value.num.toNat

/-- Bytes, or a text that is encoded. -/
inductive Chunk where
  | bytes (data : List UInt8)
  | text (chars : List Char)
  deriving DecidableEq

/-- The bytes of a chunk. -/
def Chunk.encoded : Chunk → List UInt8
  | .bytes data => data
  | .text chars => Utf8.encode chars

/-- The bytes of a stream in chunks. -/
def stream (chunks : List Chunk) : List UInt8 := chunks.flatMap Chunk.encoded

/-- What is reported after each chunk. -/
structure PushDecision where
  kept : Bool
  truncated : Bool
  deriving DecidableEq

/-- How much was omitted. -/
inductive Omitted where
  | none
  | exact (count : ℕ)
  deriving DecidableEq

/-- The final result. -/
structure RetainedText where
  text : List Char
  truncated : Bool
  omittedBytes : Omitted
  deriving DecidableEq

structure TextRetainer where
  prefixCap : ℕ
  suffixCap : ℕ
  prefixChunks : List (List UInt8) := []
  prefixHeld : ℕ := 0
  suffixChunks : List (List UInt8) := []
  suffixHeld : ℕ := 0
  total : ℕ := 0
  deriving DecidableEq

namespace TextRetainer

/-- `new TextRetainer(strategy)`. -/
def create : TextRetentionStrategy → Except String TextRetainer
  | .head maxBytes => do
    let maxBytes ← assertBudget maxBytes "maxBytes"
    return { prefixCap := maxBytes, suffixCap := 0 }
  | .tail maxBytes => do
    let maxBytes ← assertBudget maxBytes "maxBytes"
    return { prefixCap := 0, suffixCap := maxBytes }
  | .headTail headBytes tailBytes => do
    let headBytes ← assertBudget headBytes "headBytes"
    let tailBytes ← assertBudget tailBytes "tailBytes"
    return { prefixCap := headBytes, suffixCap := tailBytes }

/-- Bytes omitted once `total` bytes have been seen. -/
def omittedAt (r : TextRetainer) (total : ℕ) : ℕ :=
  let prefixLen := min total r.prefixCap
  let suffixLen := min (total - prefixLen) r.suffixCap
  total - prefixLen - suffixLen

/-- Drop the leading chunks that have slid out of the last `suffixCap` bytes. -/
def slide (suffixCap : ℕ) : List (List UInt8) → ℕ → List (List UInt8) × ℕ
  | [], held => ([], held)
  | head :: rest, held =>
    if suffixCap ≤ held - head.length then slide suffixCap rest (held - head.length)
    else (head :: rest, held)

/-- Trim the bytes of the head chunk beyond the last `suffixCap`. -/
def trimHead (suffixCap : ℕ) : List (List UInt8) × ℕ → List (List UInt8) × ℕ
  | ([], held) => ([], held)
  | (head :: rest, held) =>
    if suffixCap < held then
      let excess := held - suffixCap
      (head.drop excess :: rest, held - excess)
    else (head :: rest, held)

/-- The state after one chunk. -/
def afterPush (r : TextRetainer) (bytes : List UInt8) : TextRetainer :=
  let room := r.prefixCap - r.prefixHeld
  let take := min room bytes.length
  let suffix :=
    if 0 < r.suffixCap then
      trimHead r.suffixCap
        (slide r.suffixCap (r.suffixChunks ++ [bytes]) (r.suffixHeld + bytes.length))
    else (r.suffixChunks, r.suffixHeld)
  { r with
    prefixChunks := if 0 < take then r.prefixChunks ++ [bytes.take take] else r.prefixChunks
    prefixHeld := if 0 < take then r.prefixHeld + take else r.prefixHeld
    suffixChunks := suffix.1
    suffixHeld := suffix.2
    total := r.total + bytes.length }

/-- Offer one chunk. -/
def push (r : TextRetainer) (chunk : Chunk) : TextRetainer × PushDecision :=
  let next := r.afterPush chunk.encoded
  let droppedThisChunk := decide (r.omittedAt r.total < r.omittedAt next.total)
  (next, { kept := !droppedThisChunk, truncated := decide (0 < r.omittedAt next.total) })

/-- Offer the chunks in order. -/
def pushAll (r : TextRetainer) (chunks : List Chunk) : TextRetainer :=
  chunks.foldl (fun r chunk => (r.push chunk).1) r

/-- Decode the two sides and report the omitted bytes. -/
def finish (r : TextRetainer) : RetainedText :=
  let prefixLen := min r.total r.prefixCap
  let suffixLen := min (r.total - prefixLen) r.suffixCap
  let head := r.prefixChunks.flatten
  let tail := r.suffixChunks.flatten.drop (r.suffixHeld - suffixLen)
  let budgetOmitted := r.omittedAt r.total
  let kept :=
    if 0 < budgetOmitted then (trimTrailingPartialUtf8 head, trimLeadingContinuationUtf8 tail)
    else (head, tail)
  let text :=
    if 0 < budgetOmitted then decode kept.1 ++ decode kept.2 else decode (head ++ tail)
  let omitted := r.total - kept.1.length - kept.2.length
  { text := text
    truncated := decide (0 < omitted)
    omittedBytes := if 0 < omitted then .exact omitted else .none }

/-! ## What is held -/

/-- The prefix and the suffix that are held of a stream. -/
structure Retains (headCap tailCap : ℕ) (stream : List UInt8) (r : TextRetainer) : Prop where
  prefixCap : r.prefixCap = headCap
  suffixCap : r.suffixCap = tailCap
  total : r.total = stream.length
  head : r.prefixChunks.flatten = stream.take headCap
  prefixHeld : r.prefixHeld = min stream.length headCap
  tail : r.suffixChunks.flatten <:+ stream
  length_tail : r.suffixChunks.flatten.length = min stream.length tailCap
  suffixHeld : r.suffixHeld = r.suffixChunks.flatten.length

/-- A window of chunks: a suffix of what was there, with the head chunk across the cap. -/
structure Slid (cap : ℕ) (chunks : List (List UInt8)) (window : List (List UInt8) × ℕ) : Prop where
  suffix : window.1.flatten <:+ chunks.flatten
  held : window.2 = window.1.flatten.length
  full : min chunks.flatten.length cap ≤ window.2
  head : ∀ head rest, window.1 = head :: rest → window.2 < head.length + cap

theorem slid_slide (cap : ℕ) (chunks : List (List UInt8)) :
    Slid cap chunks (slide cap chunks chunks.flatten.length) := by
  induction chunks with
  | nil =>
    refine ⟨List.suffix_refl _, rfl, by simp [slide], ?_⟩
    intro head rest h
    cases h
  | cons chunk chunks ih =>
    have hlength : (chunk :: chunks).flatten.length - chunk.length = chunks.flatten.length := by
      rw [List.flatten_cons, List.length_append]
      omega
    rw [slide, hlength]
    by_cases hout : cap ≤ chunks.flatten.length
    · rw [if_pos hout]
      refine ⟨ih.suffix.trans (List.suffix_append chunk _), ih.held, ?_, ih.head⟩
      have hfull := ih.full
      omega
    · rw [if_neg hout]
      refine ⟨List.suffix_refl _, rfl, Nat.min_le_left _ _, ?_⟩
      intro head rest h
      injection h with hhead hrest
      subst hhead
      rw [List.flatten_cons, List.length_append]
      omega

/-- A trimmed window is the end of what was there, as long as the cap allows. -/
theorem Slid.trimHead {cap : ℕ} {chunks : List (List UInt8)} {window : List (List UInt8) × ℕ}
    (h : Slid cap chunks window) :
    (TextRetainer.trimHead cap window).1.flatten <:+ chunks.flatten ∧
      (TextRetainer.trimHead cap window).1.flatten.length = min chunks.flatten.length cap ∧
      (TextRetainer.trimHead cap window).2 = (TextRetainer.trimHead cap window).1.flatten.length := by
  obtain ⟨kept, held⟩ := window
  have hheld : held = kept.flatten.length := h.held
  have hsuffix : kept.flatten <:+ chunks.flatten := h.suffix
  have hfull : min chunks.flatten.length cap ≤ held := h.full
  have hle := hsuffix.length_le
  cases kept with
  | nil =>
    rw [List.flatten_nil, List.length_nil] at hheld
    refine ⟨hsuffix, ?_, hheld⟩
    simp only [TextRetainer.trimHead, List.flatten_nil, List.length_nil]
    omega
  | cons head rest =>
    by_cases hover : cap < held
    · have hhead : held < head.length + cap := h.head head rest rfl
      have hflat : (head.drop (held - cap) :: rest).flatten
          = (head :: rest).flatten.drop (held - cap) := by
        rw [List.flatten_cons, List.flatten_cons, List.drop_append_of_le_length (by omega)]
      have hlength : ((head :: rest).flatten.drop (held - cap)).length = cap := by
        rw [List.length_drop, ← hheld]
        omega
      simp only [TextRetainer.trimHead, if_pos hover, hflat]
      exact ⟨(List.drop_suffix _ _).trans hsuffix, by omega, by omega⟩
    · simp only [TextRetainer.trimHead, if_neg hover]
      exact ⟨hsuffix, by omega, hheld⟩

variable {headCap tailCap : ℕ} {seen : List UInt8} {r : TextRetainer}

section

variable (h : Retains headCap tailCap seen r)
include h

theorem Retains.head_afterPush (bytes : List UInt8) :
    (r.afterPush bytes).prefixChunks.flatten = (seen ++ bytes).take headCap ∧
      (r.afterPush bytes).prefixHeld = min (seen ++ bytes).length headCap := by
  have hcap := h.prefixCap
  have hheld := h.prefixHeld
  have htake : (seen ++ bytes).take headCap
      = seen.take headCap ++ bytes.take (min (headCap - min seen.length headCap) bytes.length) := by
    have hroom : headCap - min seen.length headCap = headCap - seen.length := by omega
    rw [List.take_append, hroom, ← List.take_eq_take_min]
  simp only [afterPush, hcap, hheld, htake, List.length_append]
  by_cases hpos : 0 < min (headCap - min seen.length headCap) bytes.length
  · rw [if_pos hpos, if_pos hpos, List.flatten_append, h.head, List.flatten_singleton]
    exact ⟨rfl, by omega⟩
  · have hzero : min (headCap - min seen.length headCap) bytes.length = 0 := by omega
    rw [if_neg hpos, if_neg hpos, h.head, hzero, List.take_zero, List.append_nil]
    exact ⟨rfl, by omega⟩

theorem Retains.tail_afterPush (bytes : List UInt8) :
    (r.afterPush bytes).suffixChunks.flatten <:+ seen ++ bytes ∧
      (r.afterPush bytes).suffixChunks.flatten.length = min (seen ++ bytes).length tailCap ∧
      (r.afterPush bytes).suffixHeld = (r.afterPush bytes).suffixChunks.flatten.length := by
  have hcap := h.suffixCap
  have hheld := h.suffixHeld
  have hlength := h.length_tail
  by_cases hpos : 0 < tailCap
  · have hflat : (r.suffixChunks ++ [bytes]).flatten = r.suffixChunks.flatten ++ bytes := by
      rw [List.flatten_append, List.flatten_singleton]
    have hsum : r.suffixHeld + bytes.length = (r.suffixChunks ++ [bytes]).flatten.length := by
      rw [hflat, List.length_append, hheld]
    have hslid := (slid_slide tailCap (r.suffixChunks ++ [bytes])).trimHead
    simp only [afterPush, hcap, if_pos hpos, hsum]
    refine ⟨?_, ?_, hslid.2.2⟩
    · refine hslid.1.trans ?_
      rw [hflat]
      exact List.suffix_append_self_iff.mpr h.tail
    · rw [hslid.2.1, hflat, List.length_append, List.length_append, hlength]
      omega
  · simp only [afterPush, hcap, if_neg hpos]
    refine ⟨?_, ?_, hheld⟩
    · have hnil : r.suffixChunks.flatten = [] := List.eq_nil_of_length_eq_zero (by omega)
      rw [hnil]
      exact List.nil_suffix
    · omega

/-- A chunk keeps what is held in step with the stream. -/
theorem Retains.push (chunk : Chunk) :
    Retains headCap tailCap (seen ++ chunk.encoded) (r.push chunk).1 where
  prefixCap := h.prefixCap
  suffixCap := h.suffixCap
  total := by
    rw [List.length_append, ← h.total]
    rfl
  head := (h.head_afterPush chunk.encoded).1
  prefixHeld := (h.head_afterPush chunk.encoded).2
  tail := (h.tail_afterPush chunk.encoded).1
  length_tail := (h.tail_afterPush chunk.encoded).2.1
  suffixHeld := (h.tail_afterPush chunk.encoded).2.2

/-- After any chunks the retainer holds the prefix and the suffix of their bytes. -/
theorem Retains.pushAll (chunks : List Chunk) :
    Retains headCap tailCap (seen ++ stream chunks) (r.pushAll chunks) := by
  induction chunks generalizing seen r with
  | nil =>
    rw [stream, List.flatMap_nil, List.append_nil]
    exact h
  | cons chunk chunks ih =>
    have hnext := ih (h.push chunk)
    rw [List.append_assoc] at hnext
    exact hnext

end

/-! ## The result -/

section

variable (h : Retains headCap tailCap seen r)
include h

theorem omittedAt_of_retains (total : ℕ) :
    r.omittedAt total = total - (headCap + tailCap) := by
  simp only [omittedAt, h.prefixCap, h.suffixCap]
  omega

theorem truncated_push (chunk : Chunk) :
    (r.push chunk).2.truncated = true ↔ headCap + tailCap < (seen ++ chunk.encoded).length := by
  have htotal := (h.push chunk).total
  have homitted := omittedAt_of_retains h (r.push chunk).1.total
  simp only [push, decide_eq_true_eq]
  change 0 < r.omittedAt (r.push chunk).1.total ↔ _
  rw [homitted, htotal]
  omega

/-- Where nothing is omitted, the result is the stream. -/
theorem finish_within
    (hlength : seen.length ≤ headCap + tailCap) : r.finish = ⟨decode seen, false, .none⟩ := by
  have hsuffix := List.suffix_iff_eq_drop.mp h.tail
  have hlast := h.length_tail
  have hnone : ¬0 < r.omittedAt seen.length := by
    rw [omittedAt_of_retains h]
    omega
  have htail : r.suffixChunks.flatten.drop (r.suffixHeld
      - min (seen.length - min seen.length headCap) tailCap) = seen.drop headCap := by
    rw [hsuffix, List.drop_drop, h.suffixHeld, hlast]
    by_cases hshort : seen.length ≤ headCap
    · rw [List.drop_of_length_le (by omega), List.drop_of_length_le hshort]
    · congr 1
      omega
  simp only [finish, h.total, if_neg hnone, h.prefixCap, h.suffixCap, h.head, htail,
    List.take_append_drop]
  have homitted : seen.length - (seen.take headCap).length - (seen.drop headCap).length = 0 := by
    rw [List.length_take, List.length_drop]
    omega
  rw [homitted]
  rfl

/-- Where bytes are omitted, the two sides are trimmed and decoded apart. -/
theorem finish_beyond
    (hlength : headCap + tailCap < seen.length) {head tail : List UInt8}
    (hhead : trimTrailingPartialUtf8 (seen.take headCap) = head)
    (htail : trimLeadingContinuationUtf8 (seen.drop (seen.length - tailCap)) = tail)
    (hkept : head.length + tail.length < seen.length) :
    r.finish = ⟨decode head ++ decode tail, true,
      .exact (seen.length - (head.length + tail.length))⟩ := by
  have hsuffix := List.suffix_iff_eq_drop.mp h.tail
  have hlast := h.length_tail
  have hsome : 0 < r.omittedAt seen.length := by
    rw [omittedAt_of_retains h]
    omega
  have hdrop : r.suffixChunks.flatten.drop (r.suffixHeld
      - min (seen.length - min seen.length headCap) tailCap) = seen.drop (seen.length - tailCap) := by
    rw [hsuffix, List.drop_drop, h.suffixHeld, hlast]
    congr 1
    omega
  simp only [finish, h.total, if_pos hsome, h.prefixCap, h.suffixCap, h.head, hdrop, hhead, htail]
  have hpos : 0 < seen.length - head.length - tail.length := by omega
  rw [if_pos hpos, decide_eq_true hpos, Nat.sub_sub]

end

theorem length_trimTrailing_le (bytes : List UInt8) :
    (trimTrailingPartialUtf8 bytes).length ≤ bytes.length := by
  rw [trimTrailingPartialUtf8]
  cases scanBack bytes bytes.length with
  | zero => exact Nat.le_refl _
  | succ i =>
    dsimp only
    split
    · exact Nat.le_refl _
    · split
      · rw [List.length_take]
        exact Nat.min_le_right _ _
      · exact Nat.le_refl _

theorem length_trimLeading_le (bytes : List UInt8) :
    (trimLeadingContinuationUtf8 bytes).length ≤ bytes.length :=
  (List.dropWhile_sublist _).length_le

/-- The result depends on the bytes of the stream alone. -/
theorem finish_unique {r' : TextRetainer} (h : Retains headCap tailCap seen r)
    (h' : Retains headCap tailCap seen r') : r.finish = r'.finish := by
  by_cases hlength : seen.length ≤ headCap + tailCap
  · rw [finish_within h hlength, finish_within h' hlength]
  · have hbeyond : headCap + tailCap < seen.length := by omega
    have hhead := length_trimTrailing_le (seen.take headCap)
    have htail := length_trimLeading_le (seen.drop (seen.length - tailCap))
    rw [List.length_take] at hhead
    rw [List.length_drop] at htail
    rw [finish_beyond h hbeyond rfl rfl (by omega), finish_beyond h' hbeyond rfl rfl (by omega)]

theorem retains_create {strategy : TextRetentionStrategy} (h : create strategy = .ok r) :
    Retains r.prefixCap r.suffixCap [] r := by
  have hfresh : r = { prefixCap := r.prefixCap, suffixCap := r.suffixCap } := by
    cases strategy with
    | head maxBytes =>
      obtain ⟨cap, -, hr⟩ := bind_ok h
      cases hr
      rfl
    | tail maxBytes =>
      obtain ⟨cap, -, hr⟩ := bind_ok h
      cases hr
      rfl
    | headTail headBytes tailBytes =>
      obtain ⟨cap, -, hr⟩ := bind_ok h
      obtain ⟨cap', -, hr⟩ := bind_ok hr
      cases hr
      rfl
  rw [hfresh]
  exact ⟨rfl, rfl, rfl, by simp, by simp, List.nil_suffix, by simp, rfl⟩

/-! ## Trimming to whole characters -/

theorem isContinuation_eq (b : UInt8) : isContinuation b = Utf8.isTail b := by
  have hall : ∀ n : Fin 256, isContinuation (UInt8.ofNat n) = Utf8.isTail (UInt8.ofNat n) := by
    decide +kernel
  have hb := hall ⟨b.toNat, b.toNat_lt⟩
  rwa [UInt8.ofNat_toNat] at hb

theorem expected_of_shape {lead : UInt8} {n : ℕ} (h : Utf8.Shape lead n) : expected lead = n + 1 := by
  have h80 : (0x80 : UInt8).toNat = 0x80 := rfl
  have hE0 : (0xE0 : UInt8).toNat = 0xE0 := rfl
  have hF0 : (0xF0 : UInt8).toNat = 0xF0 := rfl
  have hF8 : (0xF8 : UInt8).toNat = 0xF8 := rfl
  simp only [expected, UInt8.lt_iff_toNat_lt, h80, hE0, hF0, hF8]
  cases h with
  | one hlt => rw [if_pos hlt]
  | two hge hlt => rw [if_neg (by omega), if_pos hlt]
  | three hge hlt => rw [if_neg (by omega), if_neg (by omega), if_pos hlt]
  | four hge hlt => rw [if_neg (by omega), if_neg (by omega), if_neg (by omega), if_pos hlt]

theorem scanBack_lead (front : List UInt8) {tails : List UInt8} {lead : UInt8}
    (hlead : isContinuation lead = false) (htails : ∀ b ∈ tails, isContinuation b = true)
    (hlength : tails.length ≤ 3) {j : ℕ} (hj : j ≤ tails.length) :
    scanBack (front ++ lead :: tails) (front.length + 1 + j) = front.length + 1 := by
  induction j with
  | zero =>
    rw [Nat.add_zero, scanBack, List.getD_eq_getElem?_getD,
      List.getElem?_append_right (Nat.le_refl _), Nat.sub_self, List.getElem?_cons_zero,
      Option.getD_some, hlead]
    rfl
  | succ j ih =>
    have hbyte : (front ++ lead :: tails).getD (front.length + 1 + j) 0 = tails[j] := by
      rw [List.getD_eq_getElem?_getD, List.getElem?_append_right (by omega),
        show front.length + 1 + j - front.length = j + 1 by omega, List.getElem?_cons_succ,
        List.getElem?_eq_getElem hj, Option.getD_some]
    have hclose : (front ++ lead :: tails).length - (front.length + 1 + j) ≤ 3 := by
      rw [List.length_append, List.length_cons]
      omega
    rw [← Nat.add_assoc, scanBack, hbyte, htails _ (List.getElem_mem hj), decide_eq_true hclose,
      Bool.and_self, if_pos rfl]
    exact ih (by omega)

/-- A sequence at the end stays when it is complete. -/
theorem trimTrailing_of_shape {front tails : List UInt8} {lead : UInt8} {n : ℕ}
    (hshape : Utf8.Shape lead n) (htails : ∀ b ∈ tails, Utf8.isTail b = true)
    (hlength : tails.length ≤ n) :
    trimTrailingPartialUtf8 (front ++ lead :: tails)
      = if tails.length < n then front else front ++ lead :: tails := by
  have hlead : isContinuation lead = false := (isContinuation_eq lead).trans hshape.not_tail
  have hcontinue : ∀ b ∈ tails, isContinuation b = true :=
    fun b hb => (isContinuation_eq b).trans (htails b hb)
  have hle := hshape.le_three
  have hscan := scanBack_lead front hlead hcontinue (by omega) (Nat.le_refl tails.length)
  have htotal : (front ++ lead :: tails).length = front.length + 1 + tails.length := by
    rw [List.length_append, List.length_cons]
    omega
  have hbyte : (front ++ lead :: tails).getD front.length 0 = lead := by
    rw [List.getD_eq_getElem?_getD, List.getElem?_append_right (Nat.le_refl _), Nat.sub_self,
      List.getElem?_cons_zero, Option.getD_some]
  rw [trimTrailingPartialUtf8, htotal, hscan]
  simp only [hbyte, expected_of_shape hshape, List.take_left, Nat.add_one_ne_zero, if_false]
  by_cases hpartial : tails.length < n
  · rw [if_pos (by omega), if_pos hpartial]
  · rw [if_neg (by omega), if_neg hpartial]

end TextRetainer

end OutputRetention

end TianmaCoder
