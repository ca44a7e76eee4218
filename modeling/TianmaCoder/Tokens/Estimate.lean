import TianmaCoder.Lib.Json

/-!
# The fixed heuristic price of a message

Fixed-density token pricing of content blocks and messages: four UTF-16 code units a token,
and a constant overhead for each block and each role field. A block outside the typed arms is
priced by the length of its JSON text.

## Main definitions

* `utf16Length`, `Json.textLength` — the lengths of a string and of a JSON text.
* `estimateContent`, `estimateMessage`, `estimateToolsTokens` — the prices.
-/

namespace TianmaCoder

/-! ## Lengths -/

/-- The `length` of a string, in UTF-16 code units. -/
def utf16Length (s : String) : ℕ :=
  (s.toList.map fun c => if c.val < 0x10000 then 1 else 2).sum

/-- The code units one character takes inside a JSON string literal. -/
def escapedLength (c : Char) : ℕ :=
  if c = '"' ∨ c = '\\' then 2
  else if c.val < 0x20 then
    if c.val = 8 ∨ c.val = 9 ∨ c.val = 10 ∨ c.val = 12 ∨ c.val = 13 then 2 else 6
  else if c.val < 0x10000 then 1 else 2

/-- The length of a JSON string literal, its quotes included. -/
def quotedLength (s : String) : ℕ := (s.toList.map escapedLength).sum + 2

/-- The lengths of the number literals that the language prints in exponent form or as the
shortest text that reads back. -/
class NumberText where
  /-- An integral number of at least 22 digits. -/
  large : ℤ → ℕ
  /-- A non-integral number, from its bits. -/
  fraction : ℕ → ℕ

/-- The length of an integral number literal. -/
def integerLength [NumberText] (n : ℤ) : ℕ :=
  if n.natAbs < 10 ^ 21 then (toString n).length else NumberText.large n

namespace Json

variable [NumberText]

mutual

/-- `JSON.stringify(value).length`. -/
def textLength : Json → ℕ
  | .null => 4
  | .bool b => if b then 4 else 5
  | .int n => integerLength n
  | .float bits => NumberText.fraction bits
  | .str s => quotedLength s
  | .arr [] => 2
  | .arr (item :: items) => 2 + textLength item + moreItemsLength items
  | .obj [] => 2
  | .obj ((k, v) :: members) => 3 + quotedLength k + textLength v + moreMembersLength members

def moreItemsLength : List Json → ℕ
  | [] => 0
  | item :: items => 1 + textLength item + moreItemsLength items

def moreMembersLength : List (String × Json) → ℕ
  | [] => 0
  | (k, v) :: members => 2 + quotedLength k + textLength v + moreMembersLength members

end

end Json

/-! ## Prices -/

/-- Fixed text-density estimate. -/
def charsPerToken : ℕ := 4

/-- Per-block structural overhead for JSON framing and type tags. -/
def blockOverhead : ℕ := 4

/-- Role-field framing overhead added to every priced message. -/
def roleOverhead : ℕ := 4

/-- `Math.ceil(characters / CHARS_PER_TOKEN)`. -/
def textTokens (characters : ℕ) : ℕ := (characters + (charsPerToken - 1)) / charsPerToken

/-- The `length` of a member that the block's type declares as a string. -/
def memberLength (block : Json) (k : String) : ℕ :=
  utf16Length ((Json.str? (block.get? k)).getD "")

/-- The blocks of a message. -/
def contentOf (message : Json) : List Json := (Json.arr? (message.get? "content")).getD []

variable [NumberText]

/-- Structural JSON price of one block outside the typed pricing arms. Image offload marks do
not change it. -/
def estimateStructuralBlock (block : Json) : ℕ :=
  if block.get? "type" = some (.str "image") then
    blockOverhead + textTokens (block.erase "offloaded").textLength
  else blockOverhead + textTokens block.textLength

/-- The price of one content block. -/
def estimateBlock (block : Json) : ℕ :=
  match block.get? "type" with
  | some (.str "text") | some (.str "reasoning") =>
    textTokens (memberLength block "text") + blockOverhead
  | some (.str "tool-call") =>
    textTokens (memberLength block "name") + textTokens (memberLength block "arguments")
      + blockOverhead
  | _ => estimateStructuralBlock block

/-- Price content blocks under the fixed density heuristic. -/
def estimateContent (blocks : List Json) : ℕ := (blocks.map estimateBlock).sum

/-- Price the rendered system prompt: text density plus role framing, nothing when empty. -/
def estimateSystemMessage (message : Json) : ℕ :=
  if (contentOf message).isEmpty then 0
  else
    let characters := ((contentOf message).map fun block =>
      if block.get? "type" = some (.str "text") then memberLength block "text"
      else block.textLength).sum
    textTokens characters + roleOverhead

/-- Heuristically price one model-visible message. -/
def estimateMessage (message : Json) : ℕ :=
  if message.get? "role" = some (.str "system") then estimateSystemMessage message
  else estimateContent (contentOf message) + roleOverhead

/-- Price the tool schemas of a request header. -/
def estimateToolsTokens (header : Json) : ℕ :=
  match header.get? "tools" with
  | some (.arr (tool :: tools)) => textTokens (Json.arr (tool :: tools)).textLength + blockOverhead
  | _ => 0

theorem estimateContent_append (xs ys : List Json) :
    estimateContent (xs ++ ys) = estimateContent xs + estimateContent ys := by
  simp [estimateContent]

end TianmaCoder
