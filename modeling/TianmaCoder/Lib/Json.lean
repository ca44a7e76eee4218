import Mathlib.Algebra.GroupWithZero.Nat
import Mathlib.Data.Int.Notation
import Mathlib.Data.Nat.Notation
import TianmaCoder.Lib.OrderedMap

/-!
# Lossless JSON values

A JSON value as a durable boundary admits it: integral numbers are exact, any other
finite double is carried by its bit pattern, and an object keeps its own members in
insertion order. Reading a member that is absent gives `none`, which stands for
`undefined`; nothing is inherited from a prototype.

## Main definitions

* `Json.get?`, `Json.path` — own-member reads.
* `Json.put`, `Json.erase` — the object spreads `{ ...o, k: v }` and `const { k, ...o }`.
* `Json.count?` — a non-negative safe integer.
* `Json.deepEqual` — structural equality that ignores member order.
-/

namespace TianmaCoder

/-- A lossless JSON value. -/
inductive Json where
  | null
  | bool (b : Bool)
  | int (n : ℤ)
  /-- A finite non-integral double, by its bits. -/
  | float (bits : ℕ)
  | str (s : String)
  | arr (items : List Json)
  | obj (members : List (String × Json))
  deriving Inhabited

namespace Json

/-! ## Decidable equality -/

mutual

/-- Structural comparison, member order included. -/
def same : Json → Json → Bool
  | .null, .null => true
  | .bool a, .bool b => a == b
  | .int a, .int b => a == b
  | .float a, .float b => a == b
  | .str a, .str b => a == b
  | .arr xs, .arr ys => sameItems xs ys
  | .obj ms, .obj ns => sameMembers ms ns
  | _, _ => false

def sameItems : List Json → List Json → Bool
  | [], [] => true
  | x :: xs, y :: ys => same x y && sameItems xs ys
  | _, _ => false

def sameMembers : List (String × Json) → List (String × Json) → Bool
  | [], [] => true
  | (k, v) :: ms, (l, w) :: ns => k == l && same v w && sameMembers ms ns
  | _, _ => false

end

mutual

theorem same_iff : ∀ a b : Json, same a b = true ↔ a = b
  | .null, b => by cases b <;> simp [same]
  | .bool _, b => by cases b <;> simp [same]
  | .int _, b => by cases b <;> simp [same]
  | .float _, b => by cases b <;> simp [same]
  | .str _, b => by cases b <;> simp [same]
  | .arr xs, b => by
      cases b with
      | arr ys => simp [same, sameItems_iff xs ys]
      | _ => simp [same]
  | .obj ms, b => by
      cases b with
      | obj ns => simp [same, sameMembers_iff ms ns]
      | _ => simp [same]

theorem sameItems_iff : ∀ xs ys : List Json, sameItems xs ys = true ↔ xs = ys
  | [], ys => by cases ys <;> simp [sameItems]
  | x :: xs, ys => by
      cases ys with
      | nil => simp [sameItems]
      | cons y ys => simp [sameItems, same_iff x y, sameItems_iff xs ys]

theorem sameMembers_iff : ∀ ms ns : List (String × Json), sameMembers ms ns = true ↔ ms = ns
  | [], ns => by cases ns <;> simp [sameMembers]
  | (k, v) :: ms, ns => by
      cases ns with
      | nil => simp [sameMembers]
      | cons n ns =>
        obtain ⟨l, w⟩ := n
        simp [sameMembers, same_iff v w, sameMembers_iff ms ns]

end

instance : DecidableEq Json := fun a b => decidable_of_iff (same a b = true) (same_iff a b)

instance : LawfulBEq (Option Json) := inferInstance

/-! ## Member reads and spreads -/

/-- The own member `k` of an object; `none` stands for `undefined`. -/
def get? : Json → String → Option Json
  | .obj ms, k => ms.lookup k
  | _, _ => none

/-- A chain of member reads, `value.a.b.c`. -/
def path : Json → List String → Option Json
  | v, [] => some v
  | v, k :: ks => (v.get? k).bind (·.path ks)

/-- `Object.hasOwn(value, k)`. -/
def has (v : Json) (k : String) : Bool := (v.get? k).isSome

/-- `{ ...o, k: v }`: an existing member keeps its position. -/
def put (o : Json) (k : String) (v : Json) : Json :=
  match o with
  | .obj ms => .obj (OrderedMap.set k v ms)
  | _ => .obj [(k, v)]

/-- The rest of `const { k, ...rest } = o`. -/
def erase (o : Json) (k : String) : Json :=
  match o with
  | .obj ms => .obj (OrderedMap.delete k ms)
  | _ => .obj []

@[simp] theorem get?_obj (ms : List (String × Json)) (k : String) :
    (Json.obj ms).get? k = ms.lookup k := rfl
@[simp] theorem path_nil (v : Json) : v.path [] = some v := rfl
@[simp] theorem path_cons (v : Json) (k : String) (ks : List String) :
    v.path (k :: ks) = (v.get? k).bind (·.path ks) := rfl

@[simp] theorem lookup_cons_ite (k l : String) (v : Json) (ms : List (String × Json)) :
    ((k, v) :: ms).lookup l = if l = k then some v else ms.lookup l :=
  OrderedMap.lookup_cons_ite k l v ms

/-- A spread overwrites one member and keeps the others. -/
theorem get?_put (o : Json) (k l : String) (v : Json) :
    (o.put k v).get? l = if l = k then some v else o.get? l := by
  cases o with
  | obj ms => exact OrderedMap.lookup_set k l v ms
  | _ => simp [put, get?]

@[simp] theorem get?_put_self (o : Json) (k : String) (v : Json) :
    (o.put k v).get? k = some v := by simp [get?_put]

/-! ## Scalars -/

/-- `Number.MAX_SAFE_INTEGER`. -/
def maxSafeInteger : ℕ := 2 ^ 53 - 1

/-- `Number.isSafeInteger`, on exact integers. -/
def isSafeInteger (n : ℤ) : Bool := n.natAbs ≤ maxSafeInteger

/-- The longest array the language can hold. -/
def maxArrayLength : ℕ := 2 ^ 32 - 1

theorem maxArrayLength_le : maxArrayLength ≤ maxSafeInteger := by decide

/-- A safe integer. -/
def safeInt? : Option Json → Option ℤ
  | some (.int n) => if isSafeInteger n then some n else none
  | _ => none

theorem isSafeInteger_of_safeInt? {v : Option Json} {n : ℤ} (h : safeInt? v = some n) :
    isSafeInteger n = true := by
  unfold safeInt? at h
  split at h
  · split at h
    · cases h
      assumption
    · cases h
  · cases h

theorem eq_int_of_safeInt? {v : Option Json} {n : ℤ} (h : safeInt? v = some n) :
    v = some (.int n) := by
  unfold safeInt? at h
  split at h
  · split at h
    · cases h
      rfl
    · cases h
  · cases h

/-- A non-negative safe integer. -/
def count? : Option Json → Option ℕ
  | some (.int (.ofNat n)) => if n ≤ maxSafeInteger then some n else none
  | _ => none

def str? : Option Json → Option String
  | some (.str s) => some s
  | _ => none

def arr? : Option Json → Option (List Json)
  | some (.arr xs) => some xs
  | _ => none

theorem eq_arr_of_arr? {v : Option Json} {xs : List Json} (h : arr? v = some xs) :
    v = some (.arr xs) := by
  unfold arr? at h
  split at h
  · cases h
    rfl
  · cases h

/-- A non-null, non-array object. -/
def isObject : Json → Bool
  | .obj _ => true
  | _ => false

/-- A non-empty string. -/
def nonEmptyStr? : Option Json → Option String
  | some (.str s) => if s = "" then none else some s
  | _ => none

theorem nonEmptyStr?_eq_some {v : Option Json} {s : String} (h : nonEmptyStr? v = some s) :
    v = some (.str s) ∧ s ≠ "" := by
  unfold nonEmptyStr? at h
  split at h
  · split at h
    · cases h
    · next hne =>
        cases h
        exact ⟨rfl, hne⟩
  · cases h

/-- The number `n` of a counter or a sequence position. -/
def nat (n : ℕ) : Json := .int (.ofNat n)

@[simp] theorem nat_inj {m n : ℕ} : nat m = nat n ↔ m = n := by
  simp only [nat, Json.int.injEq, Int.ofNat_eq_natCast, Int.natCast_inj]

theorem count?_nat (n : ℕ) : count? (some (nat n)) = if n ≤ maxSafeInteger then some n else none :=
  rfl

/-- A count is the number it was read from. -/
theorem eq_nat_of_count? {v : Option Json} {n : ℕ} (h : count? v = some n) : v = some (nat n) := by
  unfold count? at h
  split at h
  · split at h <;> simp_all [nat]
  · cases h

/-! ## Structural equality up to member order -/

mutual

/-- Deep equality over JSON values: arrays in order, objects by their own members. -/
def deepEqual : Json → Json → Bool
  | .null, .null => true
  | .bool a, .bool b => a == b
  | .int a, .int b => a == b
  | .float a, .float b => a == b
  | .str a, .str b => a == b
  | .arr xs, .arr ys => deepEqualItems xs ys
  | .obj ms, .obj ns => ms.length == ns.length && deepEqualMembers ms ns
  | _, _ => false

def deepEqualItems : List Json → List Json → Bool
  | [], [] => true
  | x :: xs, y :: ys => deepEqual x y && deepEqualItems xs ys
  | _, _ => false

/-- Every member of the first object is an equal own member of the second. -/
def deepEqualMembers : List (String × Json) → List (String × Json) → Bool
  | [], _ => true
  | (k, v) :: ms, ns =>
    (match ns.lookup k with
      | some w => deepEqual v w
      | none => false) && deepEqualMembers ms ns

end

end Json

end TianmaCoder
