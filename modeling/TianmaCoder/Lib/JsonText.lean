import TianmaCoder.Lib.Json

/-!
# JSON text

A JSON value as text and back. The text is a list of tokens: the literal of a scalar is one
token, since its lexical form (the digits of a number, the escapes of a string) names it
exactly.

## Main definitions

* `Json.stringify`, `Json.parse` — writing and reading.

## Main results

* `Json.parse_stringify` — a written value is read back.
-/

namespace TianmaCoder

/-- One token of a JSON text. -/
inductive JsonToken where
  | openArray
  | closeArray
  | openObject
  | closeObject
  | comma
  | colon
  | null
  | bool (b : Bool)
  | int (n : ℤ)
  | float (bits : ℕ)
  | str (s : String)
  deriving DecidableEq

namespace Json

/-! ## Writing -/

mutual

/-- `JSON.stringify`. -/
def stringify : Json → List JsonToken
  | .null => [.null]
  | .bool b => [.bool b]
  | .int n => [.int n]
  | .float bits => [.float bits]
  | .str s => [.str s]
  | .arr items => .openArray :: stringifyItems items
  | .obj members => .openObject :: stringifyMembers members

/-- The items of an array, and its end. -/
def stringifyItems : List Json → List JsonToken
  | [] => [.closeArray]
  | item :: items => stringify item ++ stringifyMoreItems items

def stringifyMoreItems : List Json → List JsonToken
  | [] => [.closeArray]
  | item :: items => .comma :: (stringify item ++ stringifyMoreItems items)

/-- The members of an object, and its end. -/
def stringifyMembers : List (String × Json) → List JsonToken
  | [] => [.closeObject]
  | (k, v) :: members => .str k :: .colon :: (stringify v ++ stringifyMoreMembers members)

def stringifyMoreMembers : List (String × Json) → List JsonToken
  | [] => [.closeObject]
  | (k, v) :: members =>
    .comma :: .str k :: .colon :: (stringify v ++ stringifyMoreMembers members)

end

/-! ## Reading -/

mutual

/-- Read one value and return the rest; `fuel` bounds the nesting and the lengths. -/
def readValue : ℕ → List JsonToken → Option (Json × List JsonToken)
  | 0, _ => none
  | fuel + 1, tokens =>
    match tokens with
    | .null :: rest => some (.null, rest)
    | .bool b :: rest => some (.bool b, rest)
    | .int n :: rest => some (.int n, rest)
    | .float bits :: rest => some (.float bits, rest)
    | .str s :: rest => some (.str s, rest)
    | .openArray :: .closeArray :: rest => some (.arr [], rest)
    | .openArray :: rest => do
      let (item, rest) ← readValue fuel rest
      let (items, rest) ← readMoreItems fuel rest
      some (.arr (item :: items), rest)
    | .openObject :: .closeObject :: rest => some (.obj [], rest)
    | .openObject :: .str k :: .colon :: rest => do
      let (v, rest) ← readValue fuel rest
      let (members, rest) ← readMoreMembers fuel rest
      some (.obj ((k, v) :: members), rest)
    | _ => none

def readMoreItems : ℕ → List JsonToken → Option (List Json × List JsonToken)
  | 0, _ => none
  | fuel + 1, tokens =>
    match tokens with
    | .closeArray :: rest => some ([], rest)
    | .comma :: rest => do
      let (item, rest) ← readValue fuel rest
      let (items, rest) ← readMoreItems fuel rest
      some (item :: items, rest)
    | _ => none

def readMoreMembers : ℕ → List JsonToken → Option (List (String × Json) × List JsonToken)
  | 0, _ => none
  | fuel + 1, tokens =>
    match tokens with
    | .closeObject :: rest => some ([], rest)
    | .comma :: .str k :: .colon :: rest => do
      let (v, rest) ← readValue fuel rest
      let (members, rest) ← readMoreMembers fuel rest
      some ((k, v) :: members, rest)
    | _ => none

end

/-- `JSON.parse`: the whole text is one value. -/
def parse (tokens : List JsonToken) : Option Json :=
  match readValue (tokens.length + 1) tokens with
  | some (value, []) => some value
  | _ => none

/-! ## Round trip -/

/-- The text of a value never starts with the end of an array. -/
theorem stringify_eq_cons (j : Json) :
    ∃ token tokens, stringify j = token :: tokens ∧ token ≠ .closeArray := by
  cases j <;> exact ⟨_, _, by rw [stringify], by simp⟩

mutual

theorem readValue_stringify : ∀ (j : Json) (fuel : ℕ) (rest : List JsonToken),
    (stringify j).length ≤ fuel → readValue fuel (stringify j ++ rest) = some (j, rest)
  | j, 0, rest, hfuel => by
      obtain ⟨token, tokens, htokens, _⟩ := stringify_eq_cons j
      rw [htokens] at hfuel
      simp at hfuel
  | .null, fuel + 1, rest, _ => by simp [stringify, readValue]
  | .bool b, fuel + 1, rest, _ => by simp [stringify, readValue]
  | .int n, fuel + 1, rest, _ => by simp [stringify, readValue]
  | .float bits, fuel + 1, rest, _ => by simp [stringify, readValue]
  | .str s, fuel + 1, rest, _ => by simp [stringify, readValue]
  | .arr [], fuel + 1, rest, _ => by simp [stringify, stringifyItems, readValue]
  | .arr (item :: items), fuel + 1, rest, hfuel => by
      rw [stringify, stringifyItems, List.length_cons, List.length_append] at hfuel
      obtain ⟨token, tokens, htokens, hne⟩ := stringify_eq_cons item
      have hitem := readValue_stringify item fuel (stringifyMoreItems items ++ rest) (by omega)
      have hitems := readMoreItems_stringify items fuel rest (by omega)
      rw [htokens, List.cons_append] at hitem
      rw [stringify, stringifyItems, htokens, List.cons_append, List.cons_append,
        List.cons_append, List.append_assoc]
      rw [readValue]
      · simp [hitem, hitems]
      · intro tail htail
        simp_all
  | .obj [], fuel + 1, rest, _ => by simp [stringify, stringifyMembers, readValue]
  | .obj ((k, v) :: members), fuel + 1, rest, hfuel => by
      rw [stringify, stringifyMembers] at hfuel
      simp only [List.length_cons, List.length_append] at hfuel
      have hv := readValue_stringify v fuel (stringifyMoreMembers members ++ rest) (by omega)
      have hmembers := readMoreMembers_stringify members fuel rest (by omega)
      simp [stringify, stringifyMembers, readValue, hv, hmembers]

theorem readMoreItems_stringify : ∀ (items : List Json) (fuel : ℕ) (rest : List JsonToken),
    (stringifyMoreItems items).length ≤ fuel →
    readMoreItems fuel (stringifyMoreItems items ++ rest) = some (items, rest)
  | [], 0, rest, hfuel => by simp [stringifyMoreItems] at hfuel
  | _ :: _, 0, rest, hfuel => by simp [stringifyMoreItems] at hfuel
  | [], fuel + 1, rest, _ => by simp [stringifyMoreItems, readMoreItems]
  | item :: items, fuel + 1, rest, hfuel => by
      rw [stringifyMoreItems, List.length_cons, List.length_append] at hfuel
      have hitem := readValue_stringify item fuel (stringifyMoreItems items ++ rest) (by omega)
      have hitems := readMoreItems_stringify items fuel rest (by omega)
      simp [stringifyMoreItems, readMoreItems, hitem, hitems]

theorem readMoreMembers_stringify : ∀ (members : List (String × Json)) (fuel : ℕ)
    (rest : List JsonToken), (stringifyMoreMembers members).length ≤ fuel →
    readMoreMembers fuel (stringifyMoreMembers members ++ rest) = some (members, rest)
  | [], 0, rest, hfuel => by simp [stringifyMoreMembers] at hfuel
  | _ :: _, 0, rest, hfuel => by simp [stringifyMoreMembers] at hfuel
  | [], fuel + 1, rest, _ => by simp [stringifyMoreMembers, readMoreMembers]
  | (k, v) :: members, fuel + 1, rest, hfuel => by
      rw [stringifyMoreMembers] at hfuel
      simp only [List.length_cons, List.length_append] at hfuel
      have hv := readValue_stringify v fuel (stringifyMoreMembers members ++ rest) (by omega)
      have hmembers := readMoreMembers_stringify members fuel rest (by omega)
      simp [stringifyMoreMembers, readMoreMembers, hv, hmembers]

end

/-- A written value is read back. -/
theorem parse_stringify (j : Json) : parse (stringify j) = some j := by
  have hread := readValue_stringify j ((stringify j).length + 1) [] (Nat.le_succ _)
  rw [List.append_nil] at hread
  rw [parse, hread]

end Json

end TianmaCoder
