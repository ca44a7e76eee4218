import TianmaCoder.Compaction.FidelityPrefix
import TianmaCoder.Lib.Text

/-!
# The fallback checkpoint

Where the provider cannot summarize the prefix, a checkpoint is put together from its user
messages and the tail of the conversation. Texts are sequences of UTF-16 code units: the tail is
clipped between two of them.

## Main definitions

* `fallbackCheckpoint` — the checkpoint.
* `fullCheckpoint` — the checkpoint with every message in full.

## Main results

* `length_fallbackCheckpoint_le_iff` — when the bound on its length is kept.
-/

namespace TianmaCoder

namespace Fidelity

/-! ## Code units -/

/-- The UTF-16 code units of a character. -/
def unitsOf (c : Char) : List ℕ :=
  if c.val < 0x10000 then [c.toNat]
  else [0xD800 + (c.toNat - 0x10000) / 0x400, 0xDC00 + (c.toNat - 0x10000) % 0x400]

def codeUnits (s : String) : List ℕ := s.toList.flatMap unitsOf

/-- `lines.join('\n')` -/
def joinLines (lines : List (List ℕ)) : List ℕ := List.intercalate [10] lines

/-! ## The checkpoint -/

/-- `block.type === 'text' ? block.text : ''` -/
def blockText (block : Json) : String :=
  if block.get? "type" = some (.str "text") then (Json.str? (block.get? "text")).getD "" else ""

def messageText (message : Json) : String :=
  Text.trim (String.intercalate " " ((contentOf message).map blockText))

/-- The user messages with a text, each as one item. -/
def userLines (messages : List Json) : List (List ℕ) :=
  (messages.filter fun message => roleOf message = "user").filterMap fun message =>
    let text := codeUnits (messageText message)
    if text.length > 0 then some (codeUnits "- " ++ text) else none

def indented (line : List ℕ) : List ℕ := codeUnits "  " ++ line

def usersHeading : String := "1. Primary Request and Intent (verbatim recent user messages):"

def tailHeading : String :=
  "2. Recent Conversation Tail (mechanical fallback — the summarizer could not fit the "
    ++ "replayed prefix; re-read files before relying on this):"

/-- The section of the user messages. -/
def usersSection (messages : List Json) : List (List ℕ) :=
  if (userLines messages).length > 0 then
    codeUnits usersHeading :: (userLines messages).map indented ++ [[]]
  else []

/-- One line of the tail. -/
def tailLine (message : Json) (text : List ℕ) : List ℕ :=
  codeUnits (roleOf message) ++ codeUnits ": " ++ text

/-- The loop over the messages from the last one back, while there is budget left. -/
def tailFrom (budget : ℤ) : List Json → List (List ℕ)
  | [] => []
  | message :: earlier =>
    if budget ≤ 0 then []
    else
      let text := codeUnits (messageText message)
      if text.length = 0 then tailFrom budget earlier
      else
        let clipped := if text.length > budget then text.take budget.toNat else text
        tailFrom (budget - (clipped.length + (codeUnits (roleOf message)).length + 2)) earlier
          ++ [tailLine message clipped]

/-- Deterministic last-resort checkpoint: the recent user messages verbatim plus the tail of the
conversation. -/
def fallbackCheckpoint (messages : List Json) (maxChars : ℕ) : List ℕ :=
  let budget : ℤ := maxChars - (joinLines (userLines messages)).length
  joinLines (usersSection messages ++ codeUnits tailHeading
    :: (tailFrom budget messages.reverse).map indented)

/-! ## Its length -/

/-- The tail with every message in full. -/
def fullTail : List Json → List (List ℕ)
  | [] => []
  | message :: earlier =>
    let text := codeUnits (messageText message)
    if text.length = 0 then fullTail earlier else fullTail earlier ++ [tailLine message text]

/-- The checkpoint with every message in full. -/
def fullCheckpoint (messages : List Json) : List ℕ :=
  joinLines (usersSection messages ++ codeUnits tailHeading
    :: (fullTail messages.reverse).map indented)

/-- What the lines take behind a first one, indented and with their line ends. -/
def weight (lines : List (List ℕ)) : ℕ := (lines.map fun line => line.length + 3).sum

theorem weight_append (xs ys : List (List ℕ)) : weight (xs ++ ys) = weight xs + weight ys := by
  rw [weight, List.map_append, List.sum_append]
  rfl

theorem weight_tailLine (message : Json) (text : List ℕ) :
    weight [tailLine message text] = (codeUnits (roleOf message)).length + 2 + text.length + 3 := by
  have hcolon : (codeUnits ": ").length = 2 := by decide
  rw [weight, List.map_singleton, List.sum_singleton, tailLine, List.length_append,
    List.length_append, hcolon]

theorem weight_tailLine_le (message : Json) {text full : List ℕ} (h : text.length ≤ full.length) :
    weight [tailLine message text] ≤ weight [tailLine message full] := by
  rw [weight_tailLine, weight_tailLine]
  omega

theorem length_joinLines_cons (line : List ℕ) (lines : List (List ℕ)) :
    (joinLines (line :: lines)).length
      = line.length + (lines.map fun line => line.length + 1).sum := by
  induction lines generalizing line with
  | nil => simp [joinLines]
  | cons next lines ih =>
    have hnext := ih next
    rw [joinLines] at hnext ⊢
    rw [List.intercalate_cons_cons, List.length_append, List.length_append, hnext,
      List.length_singleton, List.map_cons, List.sum_cons]
    omega

theorem sum_indented (lines : List (List ℕ)) :
    ((lines.map indented).map fun line => line.length + 1).sum = weight lines := by
  have hindent : (codeUnits "  ").length = 2 := by decide
  have hline : ∀ line, (indented line).length + 1 = line.length + 3 := by
    intro line
    rw [indented, List.length_append, hindent]
    omega
  simp only [weight, List.map_map, Function.comp_def, hline]

theorem sum_le_weight (lines : List (List ℕ)) :
    (lines.map fun line => line.length + 1).sum ≤ weight lines := by
  induction lines with
  | nil => exact Nat.le_refl 0
  | cons line lines ih =>
    simp only [weight, List.map_cons, List.sum_cons] at ih ⊢
    omega

theorem tailHeading_pos : 0 < (codeUnits tailHeading).length := by
  have hhead : tailHeading.toList = '2' :: tailHeading.toList.tail := by decide +kernel
  rw [codeUnits, hhead, List.flatMap_cons, List.length_append]
  exact Nat.add_pos_left (by decide) _

/-- The length of a checkpoint: the user section, the heading of the tail and the tail. -/
theorem length_checkpoint (messages : List Json) : ∃ users,
    (joinLines (userLines messages)).length ≤ users ∧
    ∀ tail, (joinLines (usersSection messages ++ codeUnits tailHeading :: tail.map indented)).length
      = users + (codeUnits tailHeading).length + weight tail := by
  unfold usersSection
  by_cases hlines : (userLines messages).length > 0
  · rw [if_pos hlines]
    refine ⟨(codeUnits usersHeading).length + weight (userLines messages) + 2, ?_, ?_⟩
    · cases hcons : userLines messages with
      | nil => simp [hcons] at hlines
      | cons line lines =>
        have hle := sum_le_weight lines
        have hweight : weight (line :: lines) = line.length + 3 + weight lines := rfl
        rw [length_joinLines_cons, hweight]
        omega
    · intro tail
      rw [List.cons_append, List.cons_append, length_joinLines_cons, List.map_append,
        List.map_append, List.sum_append, List.sum_append, sum_indented, List.map_cons,
        List.map_cons, List.sum_cons, List.sum_cons, sum_indented]
      simp only [List.map_nil, List.sum_nil, List.length_nil]
      omega
  · rw [if_neg hlines]
    have hnil : userLines messages = [] := List.eq_nil_of_length_eq_zero (by omega)
    refine ⟨0, by rw [hnil]; exact Nat.le_refl 0, ?_⟩
    intro tail
    rw [List.nil_append, length_joinLines_cons, sum_indented]
    omega

theorem tailFrom_eq_or_le (budget : ℤ) (messages : List Json) :
    tailFrom budget messages = fullTail messages ∨ budget ≤ weight (tailFrom budget messages) := by
  induction messages generalizing budget with
  | nil => exact Or.inl rfl
  | cons message earlier ih =>
    by_cases hbudget : budget ≤ 0
    · right
      omega
    · by_cases htext : (codeUnits (messageText message)).length = 0
      · have hstep : tailFrom budget (message :: earlier) = tailFrom budget earlier := by
          rw [tailFrom, if_neg hbudget, if_pos htext]
        have hfull : fullTail (message :: earlier) = fullTail earlier := by
          rw [fullTail, if_pos htext]
        rw [hstep, hfull]
        exact ih budget
      · simp only [tailFrom, if_neg hbudget, if_neg htext, fullTail]
        by_cases hclip : ((codeUnits (messageText message)).length : ℤ) > budget
        · right
          rw [if_pos hclip, weight_append]
          have hlength : ((codeUnits (messageText message)).take budget.toNat).length
              = budget.toNat := by
            rw [List.length_take]
            omega
          rw [weight_tailLine, hlength]
          omega
        · rw [if_neg hclip]
          rcases ih (budget - ((codeUnits (messageText message)).length
              + (codeUnits (roleOf message)).length + 2)) with hfull | hused
          · left
            rw [hfull]
          · right
            rw [weight_append, weight_tailLine]
            omega

theorem weight_tailFrom_le (budget : ℤ) (messages : List Json) :
    weight (tailFrom budget messages) ≤ weight (fullTail messages) := by
  induction messages generalizing budget with
  | nil => exact Nat.le_refl 0
  | cons message earlier ih =>
    by_cases hbudget : budget ≤ 0
    · rw [tailFrom, if_pos hbudget]
      exact Nat.zero_le _
    · by_cases htext : (codeUnits (messageText message)).length = 0
      · simp only [tailFrom, if_neg hbudget, if_pos htext, fullTail]
        exact ih budget
      · simp only [tailFrom, if_neg hbudget, if_neg htext, fullTail, weight_append]
        refine Nat.add_le_add (ih _) (weight_tailLine_le message ?_)
        by_cases hclip : ((codeUnits (messageText message)).length : ℤ) > budget
        · rw [if_pos hclip]
          exact List.length_take_le' _ _
        · rw [if_neg hclip]

theorem length_fallbackCheckpoint_le_iff (messages : List Json) (maxChars : ℕ) :
    (fallbackCheckpoint messages maxChars).length ≤ maxChars ↔
      (fullCheckpoint messages).length ≤ maxChars := by
  obtain ⟨users, hjoined, hlength⟩ := length_checkpoint messages
  have hheading := tailHeading_pos
  simp only [fallbackCheckpoint, fullCheckpoint, hlength]
  have hle := weight_tailFrom_le
    (maxChars - (joinLines (userLines messages)).length) messages.reverse
  rcases tailFrom_eq_or_le (maxChars - (joinLines (userLines messages)).length)
    messages.reverse with hfull | hused
  · rw [hfull]
  · omega

end Fidelity

end TianmaCoder
