import TianmaCoder.Util.TextRetainer

/-!
# The retained text

A stream longer than the caps leaves the most whole characters that fit the head cap and the most
that fit the tail cap. The decoder drops a byte order mark in front of either side, though only
the front of the stream can hold one; there a character is lost that the count does not report.

## Main definitions

* `TextRetainer.Bounded` — the result and the reports in terms of the stream.
* `TextRetainer.Unmarked` — no side begins with the character of the mark.

## Main results

* `TextRetainer.finish_text` — the result of a stream that is cut.
* `TextRetainer.bounded_iff` — retention is exact where no side begins with the mark.
-/

namespace TianmaCoder

namespace OutputRetention

open Utf8 (encode LongestHead LongestTail)

/-! ## Cuts at whole characters -/

/-- A cut at the end is moved in front of the character it divides. -/
theorem trimTrailing_cut (text : List Char) {n : ℕ} (h : n ≤ (encode text).length) :
    ∃ front, LongestHead text n front ∧
      trimTrailingPartialUtf8 ((encode text).take n) = encode front := by
  obtain ⟨front, back, k, rfl, hn, hk⟩ := Utf8.exists_cut text h
  refine ⟨front, Utf8.longestHead_of_cut hn hk, ?_⟩
  rw [Utf8.encode_append, hn, List.take_length_add_append]
  rcases hk with rfl | ⟨c, rest, rfl, hpos, hlt⟩
  · rw [List.take_zero, List.append_nil]
    cases front using List.reverseRecOn with
    | nil => rfl
    | append_singleton front c =>
      obtain ⟨lead, tails, hbytes, hshape, htails⟩ := Utf8.shape_of_char c
      rw [Utf8.encode_append, Utf8.encode_singleton, hbytes,
        TextRetainer.trimTrailing_of_shape hshape htails (Nat.le_refl _),
        if_neg (Nat.lt_irrefl _)]
  · obtain ⟨lead, tails, hbytes, hshape, htails⟩ := Utf8.shape_of_char c
    have hsize : tails.length + 1 = c.utf8Size := by
      rw [← String.length_utf8EncodeChar, hbytes, List.length_cons]
    have hpart : (encode (c :: rest)).take k = lead :: tails.take (k - 1) := by
      obtain ⟨j, rfl⟩ : ∃ j, k = j + 1 := ⟨k - 1, by omega⟩
      rw [Utf8.encode_cons, hbytes, List.cons_append, List.take_succ_cons,
        List.take_append_of_le_length (by omega), Nat.add_sub_cancel]
    have hlength : (tails.take (k - 1)).length < tails.length := by
      rw [List.length_take]
      omega
    rw [hpart, TextRetainer.trimTrailing_of_shape hshape
      (fun b hb => htails b (List.mem_of_mem_take hb)) hlength.le, if_pos hlength]

/-- The continuation bytes in front of whole characters are dropped. -/
theorem trimLeading_append {part : List UInt8} (hpart : ∀ b ∈ part, Utf8.isTail b = true)
    (text : List Char) : trimLeadingContinuationUtf8 (part ++ encode text) = encode text := by
  have hall : ∀ b ∈ part, isContinuation b = true :=
    fun b hb => (TextRetainer.isContinuation_eq b).trans (hpart b hb)
  rw [trimLeadingContinuationUtf8, List.dropWhile_append_of_pos hall]
  cases text with
  | nil => rfl
  | cons c text =>
    obtain ⟨lead, tails, hbytes, hshape, -⟩ := Utf8.shape_of_char c
    have hlead : isContinuation lead = false :=
      (TextRetainer.isContinuation_eq lead).trans hshape.not_tail
    rw [Utf8.encode_cons, hbytes, List.cons_append, List.dropWhile_cons_of_neg (by simp [hlead])]

/-- A cut at the front is moved behind the character it divides. -/
theorem trimLeading_cut (text : List Char) {n : ℕ} (h : n ≤ (encode text).length) :
    ∃ back, LongestTail text ((encode text).length - n) back ∧
      trimLeadingContinuationUtf8 ((encode text).drop n) = encode back := by
  obtain ⟨front, back, k, rfl, hn, hk⟩ := Utf8.exists_cut text h
  have hdrop : (encode (front ++ back)).drop n = (encode back).drop k := by
    rw [Utf8.encode_append, hn, List.drop_length_add_append]
  have hlength : (encode (front ++ back)).length = (encode front).length + (encode back).length := by
    rw [Utf8.encode_append, List.length_append]
  rw [hdrop]
  rcases hk with rfl | ⟨c, rest, rfl, hpos, hlt⟩
  · have hcap : (encode (front ++ back)).length - n = (encode back).length := by omega
    refine ⟨back, hcap ▸ Utf8.longestTail_of_cut, ?_⟩
    have hnil : ∀ b ∈ ([] : List UInt8), Utf8.isTail b = true := fun b hb => by cases hb
    exact trimLeading_append hnil back
  · obtain ⟨lead, tails, hbytes, -, htails⟩ := Utf8.shape_of_char c
    have hsize : tails.length + 1 = c.utf8Size := by
      rw [← String.length_utf8EncodeChar, hbytes, List.length_cons]
    have hcons : (encode (c :: rest)).length = c.utf8Size + (encode rest).length := by
      rw [Utf8.encode_cons, List.length_append, String.length_utf8EncodeChar]
    refine ⟨rest, Utf8.longestTail_of_cut_char (by omega) (by omega), ?_⟩
    have hpart : (encode (c :: rest)).drop k = tails.drop (k - 1) ++ encode rest := by
      obtain ⟨j, rfl⟩ : ∃ j, k = j + 1 := ⟨k - 1, by omega⟩
      rw [Utf8.encode_cons, hbytes, List.cons_append, List.drop_succ_cons,
        List.drop_append_of_le_length (by omega), Nat.add_sub_cancel]
    rw [hpart]
    exact trimLeading_append (fun b hb => htails b (List.mem_of_mem_drop hb)) rest

/-! ## The mark -/

/-- The character of the byte order mark. -/
def MARK : Char := '\uFEFF'

/-- A text without the mark in front. -/
def dropMark (text : List Char) : List Char :=
  if text.head? = some MARK then text.tail else text

theorem encode_mark : String.utf8EncodeChar MARK = BOM := by decide

/-- The decoder reads a text back, without the mark in front. -/
theorem decode_encode (text : List Char) : decode (encode text) = dropMark text := by
  by_cases hmark : text.head? = some MARK
  · obtain ⟨rest, rfl⟩ : ∃ rest, text = MARK :: rest := List.head?_eq_some_iff.mp hmark
    have hbytes : encode (MARK :: rest) = BOM ++ encode rest := by
      rw [Utf8.encode_cons, encode_mark]
    have hfront : BOM.isPrefixOf (BOM ++ encode rest) = true :=
      List.isPrefixOf_iff_prefix.mpr (List.prefix_append _ _)
    have hdrop : (BOM ++ encode rest).drop 3 = encode rest := rfl
    rw [decode, hbytes, if_pos hfront, hdrop, Utf8.decode_encode, dropMark, if_pos hmark,
      List.tail_cons]
  · have hfront : ¬BOM.isPrefixOf (encode text) = true := by
      intro hfront
      obtain ⟨rest, hrest⟩ := List.isPrefixOf_iff_prefix.mp hfront
      rw [← encode_mark] at hrest
      exact hmark (Utf8.head_of_encode hrest.symm)
    rw [decode, if_neg hfront, Utf8.decode_encode, dropMark, if_neg hmark]

theorem length_dropMark_lt {text : List Char} (h : text.head? = some MARK) :
    (dropMark text).length < text.length := by
  obtain ⟨rest, rfl⟩ : ∃ rest, text = MARK :: rest := List.head?_eq_some_iff.mp h
  rw [dropMark, if_pos h, List.tail_cons, List.length_cons]
  exact Nat.lt_succ_self _

theorem length_dropMark_le (text : List Char) : (dropMark text).length ≤ text.length := by
  by_cases hmark : text.head? = some MARK
  · exact (length_dropMark_lt hmark).le
  · rw [dropMark, if_neg hmark]

namespace TextRetainer

variable {headCap tailCap : ℕ} {seen : List UInt8} {r : TextRetainer}

/-- A text longer than the caps: the most whole characters at both ends, decoded apart. -/
theorem finish_text {text : List Char} (h : Retains headCap tailCap (encode text) r)
    (hlength : headCap + tailCap < (encode text).length) :
    ∃ head tail, LongestHead text headCap head ∧ LongestTail text tailCap tail ∧
      r.finish = ⟨dropMark head ++ dropMark tail, true,
        .exact ((encode text).length - ((encode head).length + (encode tail).length))⟩ := by
  obtain ⟨head, hhead, htrimHead⟩ := trimTrailing_cut text (n := headCap) (by omega)
  obtain ⟨tail, htail, htrimTail⟩ := trimLeading_cut text
    (n := (encode text).length - tailCap) (by omega)
  have hcap : (encode text).length - ((encode text).length - tailCap) = tailCap := by omega
  rw [hcap] at htail
  have hfits := hhead.fits
  have hfits' := htail.fits
  refine ⟨head, tail, hhead, htail, ?_⟩
  rw [finish_beyond h hlength htrimHead htrimTail (by omega), decode_encode, decode_encode]

/-! ## Exact retention -/

/-- What the caller of a retainer is promised about a stream in chunks. -/
structure Bounded (r : TextRetainer) (chunks : List Chunk) : Prop where
  /-- The result depends on the bytes alone. -/
  bytes : ∀ chunks', stream chunks' = stream chunks →
    (r.pushAll chunks').finish = (r.pushAll chunks).finish
  /-- A stream within the caps is decoded whole. -/
  within : (stream chunks).length ≤ r.prefixCap + r.suffixCap →
    (r.pushAll chunks).finish = ⟨decode (stream chunks), false, .none⟩
  /-- A longer text is cut to the whole characters that fit, and the rest of it is counted. -/
  beyond : ∀ text, stream chunks = encode text →
    r.prefixCap + r.suffixCap < (stream chunks).length →
    ∃ head tail, LongestHead text r.prefixCap head ∧ LongestTail text r.suffixCap tail ∧
      (r.pushAll chunks).finish = ⟨head ++ tail, true,
        .exact ((stream chunks).length - (encode (r.pushAll chunks).finish.text).length)⟩
  /-- A chunk is reported truncated once bytes beyond the caps have been seen. -/
  pushes : ∀ before chunk after, chunks = before ++ chunk :: after →
    (((r.pushAll before).push chunk).2.truncated = true ↔
      r.prefixCap + r.suffixCap < (stream (before ++ [chunk])).length)
  /-- The suffix stays within its cap. -/
  window : ∀ before after, chunks = before ++ after →
    (r.pushAll before).suffixHeld ≤ r.suffixCap ∧
      (r.pushAll before).suffixChunks.flatten.length = (r.pushAll before).suffixHeld

/-- No side of a cut text begins with the mark. -/
def Unmarked (text : List Char) (headCap tailCap : ℕ) : Prop :=
  (∀ run, LongestHead text headCap run → run.head? ≠ some MARK) ∧
    ∀ run, LongestTail text tailCap run → run.head? ≠ some MARK

/-- Retention is exact exactly where no side of a cut text begins with the mark. -/
theorem bounded_iff {strategy : TextRetentionStrategy} (h : create strategy = .ok r)
    (chunks : List Chunk) :
    Bounded r chunks ↔ ∀ text, stream chunks = encode text →
      r.prefixCap + r.suffixCap < (stream chunks).length →
        Unmarked text r.prefixCap r.suffixCap := by
  have hall : ∀ chunks, Retains r.prefixCap r.suffixCap (stream chunks) (r.pushAll chunks) :=
    fun chunks => (retains_create h).pushAll chunks
  constructor
  · intro hbounded text htext hlength
    obtain ⟨head, tail, hhead, htail, hfinish⟩ := hbounded.beyond text htext hlength
    have hretains := hall chunks
    rw [htext] at hretains hlength
    obtain ⟨head', tail', hhead', htail', hfinish'⟩ := finish_text hretains hlength
    obtain rfl := hhead.unique hhead'
    obtain rfl := htail.unique htail'
    have hsame : head ++ tail = dropMark head ++ dropMark tail := by
      have htexts := congrArg RetainedText.text (hfinish.symm.trans hfinish')
      exact htexts
    have hlengths := congrArg List.length hsame
    rw [List.length_append, List.length_append] at hlengths
    have hle := length_dropMark_le head
    have hle' := length_dropMark_le tail
    constructor
    · intro run hrun hmark
      obtain rfl := hhead.unique hrun
      have hlt := length_dropMark_lt hmark
      omega
    · intro run hrun hmark
      obtain rfl := htail.unique hrun
      have hlt := length_dropMark_lt hmark
      omega
  · intro hunmarked
    refine ⟨?_, ?_, ?_, ?_, ?_⟩
    · intro chunks' hchunks
      have hretains := hall chunks'
      rw [hchunks] at hretains
      exact finish_unique hretains (hall chunks)
    · exact finish_within (hall chunks)
    · intro text htext hlength
      have hcut := hunmarked text htext hlength
      have hretains := hall chunks
      rw [htext] at hretains hlength ⊢
      obtain ⟨head, tail, hhead, htail, hfinish⟩ := finish_text hretains hlength
      have hheadMark := hcut.1 head hhead
      have htailMark := hcut.2 tail htail
      rw [dropMark, if_neg hheadMark, dropMark, if_neg htailMark] at hfinish
      refine ⟨head, tail, hhead, htail, ?_⟩
      rw [hfinish, Utf8.encode_append, List.length_append]
    · intro before chunk after hchunks
      rw [truncated_push (hall before) chunk, stream, stream, List.flatMap_append,
        List.flatMap_singleton]
    · intro before after hchunks
      have hheld := (hall before).suffixHeld
      have hlength := (hall before).length_tail
      exact ⟨by omega, hheld.symm⟩

/-! ## A mark in front of the tail -/

/-- Eight bytes, a mark among them. -/
def markedText : List Char := ['a', 'a', 'a', 'a', MARK, 'b']

/-- A tail of four bytes begins with the mark, which is dropped and not counted. -/
theorem marked_tail_loses : ¬∀ r, create (.tail 4) = .ok r → Bounded r [.text markedText] := by
  intro h
  have hcreate : create (.tail 4) = .ok { prefixCap := 0, suffixCap := 4 } := by decide +kernel
  obtain ⟨head, tail, -, -, hfinish⟩ := (h _ hcreate).beyond markedText (by decide) (by decide)
  have homitted := congrArg RetainedText.omittedBytes hfinish
  dsimp only at homitted
  revert homitted
  decide +kernel

theorem bounded_iff_marked : ∃ r, create (.tail 4) = .ok r ∧
    (Bounded r [.text markedText] ↔ ∀ text, stream [.text markedText] = encode text →
      r.prefixCap + r.suffixCap < (stream [.text markedText]).length →
        Unmarked text r.prefixCap r.suffixCap) := by
  have hcreate : create (.tail 4) = .ok { prefixCap := 0, suffixCap := 4 } := by decide +kernel
  exact ⟨_, hcreate, bounded_iff hcreate _⟩

end TextRetainer

end OutputRetention

end TianmaCoder
