import TianmaCoder.Compaction.Pruner
import TianmaCoder.Lib.MarkedCut

/-!
# The middle of a large result

The content that the middle pruner gives a tool result. Content is read as its letters, the
code points of the text blocks, with the other blocks in between; the pruner then makes one
marked cut of it.

## Main results

* `ToolResultPruneConfig.pruneContent_exact` — when content is pruned, and to what.
-/

namespace TianmaCoder

open Checked

namespace Compaction

/-- A block as letters, or as an item between letters. -/
def piecesOf (block : Json) : List (Char ⊕ Json) :=
  if isTextBlock block then (blockText block).toList.map .inl else [.inr block]

/-- Content as letters with the other blocks in between. -/
def pieces (blocks : List Json) : List (Char ⊕ Json) := blocks.flatMap piecesOf

@[simp] theorem pieces_nil : pieces [] = [] := rfl
@[simp] theorem pieces_append (xs ys : List Json) : pieces (xs ++ ys) = pieces xs ++ pieces ys :=
  List.flatMap_append
@[simp] theorem pieces_singleton (block : Json) : pieces [block] = piecesOf block := by
  simp [pieces]

variable {block : Json}

theorem piecesOf_text (h : isTextBlock block = true) :
    piecesOf block = (blockText block).toList.map .inl := by rw [piecesOf, if_pos h]

theorem piecesOf_rich (h : ¬isTextBlock block = true) :
    piecesOf block = [.inr block] := by rw [piecesOf, if_neg h]

/-- A text block keeps its type under a new text. -/
theorem isTextBlock_put (h : isTextBlock block = true) (text : String) :
    isTextBlock (block.put "text" (.str text)) = true := by
  rw [isTextBlock, Json.get?_put, if_neg (by decide)]
  exact h

@[simp] theorem blockText_put (block : Json) (text : String) :
    blockText (block.put "text" (.str text)) = text := by
  simp [blockText, Json.str?]

theorem measureContent_eq (blocks : List Json) :
    measureContent blocks = (letters (pieces blocks)).length := by
  induction blocks with
  | nil => rfl
  | cons block rest ih =>
    rw [← List.singleton_append, pieces_append, letters_append, List.length_append, ← ih,
      pieces_singleton]
    by_cases h : isTextBlock block = true
    · rw [piecesOf_text h, letters_map_inl, String.length_toList]
      simp [measureContent, h]
    · rw [piecesOf_rich h]
      simp [measureContent, h]

namespace ToolResultPruneConfig

variable {start stop : ℕ}

/-- The state of the loop behind some blocks: before the cut begins everything was kept, and
from then on the marker is in its place. -/
structure ScanAt (start stop : ℕ) (blocks : List Json) (scan : PruneScan) : Prop where
  consumed : scan.consumed = (letters (pieces blocks)).length
  inserted : scan.markerInserted = true ↔ start < scan.consumed
  whole : scan.markerInserted = false → pieces scan.pruned = pieces blocks
  cut : scan.markerInserted = true →
    MarkedCut start stop PRUNE_MARKER.toList (pieces blocks) (pieces scan.pruned)

theorem ScanAt.init : ScanAt start stop [] ⟨[], 0, false⟩ :=
  ⟨rfl, by simp, fun _ => rfl, fun h => by cases h⟩

/-- What the loop pushes for a text. -/
theorem pieces_pushText (h : isTextBlock block = true) (pruned : List Json) (text : String) :
    pieces (if text = "" then pruned else pruned ++ [block.put "text" (.str text)]) =
      pieces pruned ++ text.toList.map .inl := by
  by_cases htext : text = ""
  · simp [htext]
  · rw [if_neg htext, pieces_append, pieces_singleton, piecesOf_text (isTextBlock_put h text),
      blockText_put]

variable {blocks : List Json}

theorem ScanAt.rich {scan : PruneScan} (hscan : ScanAt start stop blocks scan)
    (h : ¬isTextBlock block = true) :
    ScanAt start stop (blocks ++ [block]) (pruneBlock start stop scan block) := by
  have hstep : pruneBlock start stop scan block = { scan with pruned := scan.pruned ++ [block] } := by
    rw [pruneBlock, if_neg h]
  rw [hstep]
  refine ⟨?_, hscan.inserted, ?_, ?_⟩
  · simp [piecesOf_rich h, hscan.consumed]
  · intro hmark
    simp [hscan.whole hmark]
  · intro hmark
    obtain ⟨before, after, hresult, hkept, hbefore⟩ := (hscan.cut hmark).around
    refine ⟨before, after ++ [.inr block], ?_, ?_, ?_⟩
    · simp [hresult, piecesOf_rich h]
    · rw [pieces_append, outside_append, hkept, pieces_singleton, piecesOf_rich h,
        List.append_assoc]
      rfl
    · simp [hbefore, piecesOf_rich h]

/-- The marker that a text block gets. -/
def markerFor (start stop : ℕ) (scan : PruneScan) (length : ℕ) : List Char :=
  if (scan.consumed < stop ∧ start < scan.consumed + length) ∧ scan.markerInserted = false then
    PRUNE_MARKER.toList
  else []

variable (start stop) in
/-- What the loop does with a text block. -/
theorem pruneBlock_text (h : isTextBlock block = true) {points : List Char}
    (hpoints : (blockText block).toList = points) (scan : PruneScan) :
    (pruneBlock start stop scan block).consumed = scan.consumed + points.length ∧
      (pruneBlock start stop scan block).markerInserted =
        (scan.markerInserted ||
          decide (scan.consumed < stop ∧ start < scan.consumed + points.length)) ∧
      pieces (pruneBlock start stop scan block).pruned = pieces scan.pruned ++
        (points.take (start - scan.consumed) ++ markerFor start stop scan points.length ++
          points.drop (stop - scan.consumed)).map .inl := by
  have htake : points.take (min points.length (start - scan.consumed)) =
      points.take (start - scan.consumed) := by
    rw [List.take_eq_take_iff]
    omega
  have hdrop : points.drop (min points.length (stop - scan.consumed)) =
      points.drop (stop - scan.consumed) := by
    by_cases hle : points.length ≤ stop - scan.consumed
    · rw [Nat.min_eq_left hle, List.drop_length, List.drop_of_length_le hle]
    · rw [Nat.min_eq_right (by omega)]
  have hne : (PRUNE_MARKER != "") = true := by decide
  refine ⟨by simp [pruneBlock, h, hpoints], ?_, ?_⟩
  · simp only [pruneBlock, if_pos h, hpoints]
    by_cases hmark : scan.markerInserted = true
    · simp [hmark]
    · rw [Bool.not_eq_true] at hmark
      by_cases hcut : scan.consumed < stop ∧ start < scan.consumed + points.length
      · simp [hmark, hcut, hne]
      · simp [hmark, hcut]
  · simp only [pruneBlock, if_pos h, hpoints]
    rw [pieces_pushText h, String.toList_append, String.toList_append, String.toList_ofList,
      String.toList_ofList, htake, hdrop, markerFor]
    congr 4
    split <;> rfl

/-- A text block before the cut is kept, one that reaches into it gets the marker, and what a
later one has before the end of the cut goes. -/
theorem ScanAt.text {scan : PruneScan} (hscan : ScanAt start stop blocks scan)
    (hspan : start < stop) (h : isTextBlock block = true) :
    ScanAt start stop (blocks ++ [block]) (pruneBlock start stop scan block) := by
  generalize hpoints : (blockText block).toList = points
  obtain ⟨hconsumed, hinserted, hpruned⟩ := pruneBlock_text start stop h hpoints scan
  have hpieces : pieces (blocks ++ [block]) = pieces blocks ++ points.map .inl := by
    rw [pieces_append, pieces_singleton, piecesOf_text h, hpoints]
  have hletters : letters (pieces (blocks ++ [block])) = letters (pieces blocks) ++ points := by
    rw [hpieces, letters_append, letters_map_inl]
  have hcount := hscan.consumed
  have hcut : outside start stop 0 (pieces (blocks ++ [block])) =
      outside start stop 0 (pieces blocks) ++
        (points.take (start - scan.consumed) ++ points.drop (stop - scan.consumed)).map .inl := by
    rw [hpieces, outside_append, Nat.zero_add, ← hcount, outside_map_inl hspan.le]
  by_cases hmark : scan.markerInserted = true
  · -- the marker is there: nothing of the block is before the cut
    have hafter : start < scan.consumed := hscan.inserted.mp hmark
    have hnone : start - scan.consumed = 0 := by omega
    have hmarker : markerFor start stop scan points.length = [] := by
      simp [markerFor, hmark]
    rw [hmarker, hnone, List.take_zero, List.nil_append, List.nil_append] at hpruned
    rw [hnone, List.take_zero, List.nil_append] at hcut
    obtain ⟨before, after, hresult, hkept, hbefore⟩ := (hscan.cut hmark).around
    refine ⟨?_, ?_, ?_, ?_⟩
    · rw [hconsumed, hletters, List.length_append, hcount]
    · rw [hinserted, hconsumed, hmark]
      simp
      omega
    · intro hno
      rw [hinserted, hmark] at hno
      cases hno
    · intro _
      refine ⟨before, after ++ (points.drop (stop - scan.consumed)).map .inl, ?_, ?_, ?_⟩
      · rw [hpruned, hresult, List.append_assoc]
      · rw [hcut, hkept, List.append_assoc]
      · rw [hletters, hbefore, List.take_append_of_le_length (by omega)]
  · have hwhole := hscan.whole (by simpa using hmark)
    have hbefore : scan.consumed ≤ start := by
      by_contra hlt
      exact hmark (hscan.inserted.mpr (by omega))
    have hkept : outside start stop 0 (pieces blocks) = pieces blocks :=
      outside_of_le 0 (pieces blocks) (by omega)
    rw [Bool.not_eq_true] at hmark
    by_cases hreach : start < scan.consumed + points.length
    · -- the cut begins in this block
      have hmeets : scan.consumed < stop ∧ start < scan.consumed + points.length := by omega
      have hmarker : markerFor start stop scan points.length = PRUNE_MARKER.toList := by
        rw [markerFor, if_pos ⟨hmeets, hmark⟩]
      rw [hmarker, hwhole] at hpruned
      refine ⟨?_, ?_, ?_, ?_⟩
      · rw [hconsumed, hletters, List.length_append, hcount]
      · rw [hinserted, hconsumed]
        simp [hmeets]
      · intro hno
        rw [hinserted, decide_eq_true hmeets, Bool.or_true] at hno
        cases hno
      · intro _
        refine ⟨pieces blocks ++ (points.take (start - scan.consumed)).map .inl,
          (points.drop (stop - scan.consumed)).map .inl, ?_, ?_, ?_⟩
        · rw [hpruned, List.map_append, List.map_append]
          simp only [List.append_assoc]
        · rw [hcut, hkept, List.map_append, List.append_assoc]
        · have hall : (letters (pieces blocks)).take start = letters (pieces blocks) :=
            List.take_of_length_le (by omega)
          rw [hletters, letters_append, letters_map_inl, List.take_append, hall, ← hcount]
    · -- the whole block is before the cut
      have hmeets : ¬(scan.consumed < stop ∧ start < scan.consumed + points.length) :=
        fun hboth => hreach hboth.2
      have hmarker : markerFor start stop scan points.length = [] := by
        rw [markerFor, if_neg fun hboth => hmeets hboth.1]
      rw [hmarker, hwhole, List.take_of_length_le (by omega), List.drop_of_length_le (by omega),
        List.append_nil, List.append_nil, ← hpieces] at hpruned
      have hstill : (pruneBlock start stop scan block).markerInserted = false := by
        rw [hinserted, hmark, decide_eq_false hmeets]
        rfl
      refine ⟨?_, ?_, fun _ => hpruned, ?_⟩
      · rw [hconsumed, hletters, List.length_append, hcount]
      · rw [hstill, hconsumed]
        simp
        omega
      · intro hyes
        rw [hstill] at hyes
        cases hyes

theorem ScanAt.run (hspan : start < stop) (blocks : List Json) :
    ScanAt start stop blocks (blocks.foldl (pruneBlock start stop) ⟨[], 0, false⟩) := by
  induction blocks using List.reverseRecOn with
  | nil => exact ScanAt.init
  | append_singleton blocks block ih =>
    rw [List.foldl_append, List.foldl_cons, List.foldl_nil]
    by_cases h : isTextBlock block = true
    · exact ih.text hspan h
    · exact ih.rich h

/-! ## The pruned content -/

variable (config : ToolResultPruneConfig)

theorem pruneContent_of_le (h : measureContent blocks ≤ config.thresholdChars) :
    config.pruneContent blocks = .ok none := by
  rw [pruneContent, if_pos h]

theorem pruneContent_of_lt (h : config.thresholdChars < measureContent blocks) :
    ∃ content, config.pruneContent blocks = .ok (some content) ∧
      MarkedCut config.headChars (measureContent blocks - config.tailChars) PRUNE_MARKER.toList
        (pieces blocks) (pieces content) ∧
      measureContent content = config.headChars + PRUNE_MARKER.length + config.tailChars := by
  have hfits := config.fits
  have hmarker : 0 < PRUNE_MARKER.length := by decide
  have hspan : config.headChars < measureContent blocks - config.tailChars := by omega
  have hscan := ScanAt.run hspan blocks
  generalize hfold : blocks.foldl (pruneBlock config.headChars
    (measureContent blocks - config.tailChars)) ⟨[], 0, false⟩ = scan at hscan
  have hmark : scan.markerInserted = true := by
    rw [hscan.inserted, hscan.consumed, ← measureContent_eq]
    omega
  have hcut := hscan.cut hmark
  have hlength : measureContent scan.pruned =
      config.headChars + PRUNE_MARKER.length + config.tailChars := by
    rw [measureContent_eq, hcut.letters_eq hspan.le, List.length_append, List.length_append,
      List.length_take, List.length_drop, ← measureContent_eq, String.length_toList]
    omega
  refine ⟨scan.pruned, ?_, hcut, hlength⟩
  have hsmall : ¬(config.thresholdChars < measureContent scan.pruned ∨
      measureContent blocks ≤ measureContent scan.pruned) := by omega
  simp only [pruneContent, if_neg (Nat.not_le.mpr h), hfold, hmark, Bool.not_true,
    Bool.false_eq_true, if_false, if_neg hsmall]

/-- Content is pruned exactly when its text is over the budget. The text of the result is the
head, one marker and the tail, in one cut that leaves the other blocks in place; it is within
the budget and shorter, so a second pruning leaves it alone. -/
theorem pruneContent_exact (blocks : List Json) :
    (config.pruneContent blocks = .ok none ↔
      measureContent blocks ≤ config.thresholdChars) ∧
    (config.thresholdChars < measureContent blocks →
      ∃ content, config.pruneContent blocks = .ok (some content) ∧
        letters (pieces content) = (letters (pieces blocks)).take config.headChars ++
          PRUNE_MARKER.toList ++
          (letters (pieces blocks)).drop (measureContent blocks - config.tailChars) ∧
        others (pieces content) = others (pieces blocks) ∧
        MarkedCut config.headChars (measureContent blocks - config.tailChars) PRUNE_MARKER.toList
          (pieces blocks) (pieces content) ∧
        measureContent content ≤ config.thresholdChars ∧
        measureContent content < measureContent blocks ∧
        config.pruneContent content = .ok none) := by
  have hfits := config.fits
  constructor
  · constructor
    · intro hnone
      by_contra hlt
      obtain ⟨content, hsome, _⟩ := config.pruneContent_of_lt (Nat.not_le.mp hlt)
      rw [hsome] at hnone
      cases hnone
    · exact config.pruneContent_of_le
  · intro hlt
    obtain ⟨content, hsome, hcut, hlength⟩ := config.pruneContent_of_lt hlt
    have hspan : config.headChars ≤ measureContent blocks - config.tailChars := by omega
    refine ⟨content, hsome, hcut.letters_eq hspan, hcut.others_eq, hcut, by omega, by omega, ?_⟩
    exact config.pruneContent_of_le (by omega)

/-- A text of 41 letters under a budget of 40. -/
theorem pruneContent_exact_long :
    ∃ config : ToolResultPruneConfig, ∃ content,
      config.pruneContent [.obj [("type", .str "text"),
        ("text", .str "01234567890123456789012345678901234567890")]] = .ok (some content) ∧
      config.pruneContent content = .ok none := by
  have hfits : 1 + PRUNE_MARKER.length + 0 ≤ 40 := by decide
  have hlong : 40 < measureContent [.obj [("type", .str "text"),
      ("text", .str "01234567890123456789012345678901234567890")]] := by decide
  obtain ⟨content, hsome, _, _, _, _, _, hagain⟩ :=
    (pruneContent_exact ⟨40, 1, 0, by decide, hfits⟩ _).2 hlong
  exact ⟨_, content, hsome, hagain⟩

end ToolResultPruneConfig

end Compaction

end TianmaCoder
