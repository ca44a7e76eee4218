import Mathlib.Data.List.Perm.Subperm
import Mathlib.Tactic.Tauto
import TianmaCoder.Lib.Json

/-!
# Equality of JSON values

Two comparisons walk two values in parallel. The one of the session core asks whether the second
object owns a member, the shared one whether it has it, inherited members included. What an object
of parsed JSON inherits are methods, which equal no data, and `__proto__`, which reads as an object
without members of its own: an own `__proto__` that holds the empty object is found in every object.

## Main definitions

* `deepEqualJson` — the shared comparison; the core's is `Json.deepEqual`.
* `SameData` — the same JSON data, whatever the member order.
* `Disguised` — a value in which other members stand in the place of such members.

## Main results

* `deepEqualJson_iff`, `deepEqual_iff` — what the comparisons hold of.
* `equality_exact_iff` — the pairs for which the shared one is exact.
-/

namespace TianmaCoder

open Json

/-! ## The comparisons -/

/-- What reading a member of a parsed object gives. -/
inductive MemberRead where
  | own (value : Json)
  /-- `Object.prototype`, an object without enumerable members. -/
  | objectPrototype
  /-- A function of `Object.prototype`. -/
  | method
  | absent

/-- The methods that every parsed object inherits. -/
def inheritedMethods : List String :=
  ["constructor", "__defineGetter__", "__defineSetter__", "hasOwnProperty", "__lookupGetter__",
    "__lookupSetter__", "isPrototypeOf", "propertyIsEnumerable", "toString", "valueOf",
    "toLocaleString"]

/-- `right[key]`, with `key in right` for anything but `absent`. -/
def memberRead (right : List (String × Json)) (key : String) : MemberRead :=
  match right.lookup key with
  | some value => .own value
  | none =>
    if key = "__proto__" then .objectPrototype
    else if key ∈ inheritedMethods then .method
    else .absent

/-- `deepEqualJson(value, Object.prototype)`: both are objects without enumerable members. -/
def equalsPrototype : Json → Bool
  | .obj members => members.length == 0
  | _ => false

mutual

/-- Compare JSON-compatible values structurally. -/
def deepEqualJson : Json → Json → Bool
  | .null, .null => true
  | .bool a, .bool b => a == b
  | .int a, .int b => a == b
  | .float a, .float b => a == b
  | .str a, .str b => a == b
  | .arr xs, .arr ys => deepEqualJsonItems xs ys
  | .obj left, .obj right => left.length == right.length && deepEqualJsonMembers left right
  | _, _ => false

def deepEqualJsonItems : List Json → List Json → Bool
  | [], [] => true
  | x :: xs, y :: ys => deepEqualJson x y && deepEqualJsonItems xs ys
  | _, _ => false

/-- Every member of the left object is in the right one, with an equal value. -/
def deepEqualJsonMembers : List (String × Json) → List (String × Json) → Bool
  | [], _ => true
  | (key, value) :: left, right =>
    (match memberRead right key with
      | .own other => deepEqualJson value other
      | .objectPrototype => equalsPrototype value
      | .method => false
      | .absent => false) && deepEqualJsonMembers left right

end

/-! ## The data of a value -/

mutual

/-- The keys of every object are distinct, as those of parsed text are. -/
def DistinctKeys : Json → Prop
  | .arr items => DistinctItems items
  | .obj members => (OrderedMap.keys members).Nodup ∧ DistinctMembers members
  | _ => True

def DistinctItems : List Json → Prop
  | [] => True
  | item :: items => DistinctKeys item ∧ DistinctItems items

def DistinctMembers : List (String × Json) → Prop
  | [] => True
  | (_, value) :: members => DistinctKeys value ∧ DistinctMembers members

end

mutual

/-- The same JSON data: object keys in any order, array items in order. -/
def SameData : Json → Json → Prop
  | .arr xs, .arr ys => SameItems xs ys
  | .obj left, .obj right =>
    (∀ key, key ∈ OrderedMap.keys left ↔ key ∈ OrderedMap.keys right) ∧ SameMembers left right
  | a, b => a = b

def SameItems : List Json → List Json → Prop
  | [], [] => True
  | x :: xs, y :: ys => SameData x y ∧ SameItems xs ys
  | _, _ => False

/-- Every member of the left object has the same data in the right one. -/
def SameMembers : List (String × Json) → List (String × Json) → Prop
  | [], _ => True
  | (key, value) :: left, right =>
    (∃ other, right.lookup key = some other ∧ SameData value other) ∧ SameMembers left right

end

mutual

/-- The right value is the left one, but that in one or more of its objects another member stands
in the place of an own `__proto__` that holds the empty object. -/
def Disguised : Json → Json → Prop
  | .arr xs, .arr ys => DisguisedItems xs ys
  | .obj left, .obj right => left.length = right.length ∧ DisguisedMembers left right
  | _, _ => False

def DisguisedItems : List Json → List Json → Prop
  | x :: xs, y :: ys =>
    Disguised x y ∧ (SameItems xs ys ∨ DisguisedItems xs ys) ∨ SameData x y ∧ DisguisedItems xs ys
  | _, _ => False

def DisguisedMembers : List (String × Json) → List (String × Json) → Prop
  | [], _ => False
  | (key, value) :: left, right =>
    ((∃ other, right.lookup key = some other ∧ Disguised value other) ∨
        key = "__proto__" ∧ value = .obj [] ∧ right.lookup key = none) ∧
      (SameMembers left right ∨ DisguisedMembers left right) ∨
    (∃ other, right.lookup key = some other ∧ SameData value other) ∧ DisguisedMembers left right

end

/-! ## Object keys -/

variable {right left : List (String × Json)}

/-- Objects of one size have the same keys when those of one are keys of the other. -/
theorem keys_iff_of_length (hleft : (OrderedMap.keys left).Nodup)
    (hlength : left.length = right.length)
    (hsub : ∀ key ∈ OrderedMap.keys left, key ∈ OrderedMap.keys right) (key : String) :
    key ∈ OrderedMap.keys left ↔ key ∈ OrderedMap.keys right := by
  have hperm : (OrderedMap.keys left).Perm (OrderedMap.keys right) := by
    refine (hleft.subperm hsub).perm_of_length_le ?_
    simp [OrderedMap.keys, hlength]
  exact hperm.mem_iff

theorem length_of_keys_iff (hleft : (OrderedMap.keys left).Nodup)
    (hright : (OrderedMap.keys right).Nodup)
    (h : ∀ key, key ∈ OrderedMap.keys left ↔ key ∈ OrderedMap.keys right) :
    left.length = right.length := by
  have hperm : (OrderedMap.keys left).Perm (OrderedMap.keys right) :=
    (List.perm_ext_iff_of_nodup hleft hright).mpr h
  have hlength := hperm.length_eq
  simpa [OrderedMap.keys] using hlength

theorem SameMembers.lookup (h : SameMembers left right) :
    ∀ entry ∈ left, ∃ other, right.lookup entry.1 = some other ∧ SameData entry.2 other := by
  induction left with
  | nil => exact List.forall_mem_nil _
  | cons entry left ih => exact List.forall_mem_cons.mpr ⟨h.1, ih h.2⟩

theorem sameMembers_iff_lookup :
    SameMembers left right ↔
      ∀ entry ∈ left, ∃ other, right.lookup entry.1 = some other ∧ SameData entry.2 other := by
  constructor
  · exact SameMembers.lookup
  · intro h
    induction left with
    | nil => trivial
    | cons entry left ih =>
      exact ⟨h entry List.mem_cons_self, ih fun e he => h e (List.mem_cons_of_mem _ he)⟩

variable {key : String}

theorem mem_keys_of_lookup {value : Json} (h : right.lookup key = some value) :
    key ∈ OrderedMap.keys right :=
  (OrderedMap.mem_keys_iff key right).mpr (by rw [h]; rfl)

theorem SameMembers.keys (h : SameMembers left right) :
    ∀ key ∈ OrderedMap.keys left, key ∈ OrderedMap.keys right := by
  intro key hkey
  obtain ⟨entry, hentry, rfl⟩ := List.mem_map.mp hkey
  obtain ⟨other, hother, -⟩ := h.lookup entry hentry
  exact mem_keys_of_lookup hother

theorem distinct_of_lookup (h : DistinctMembers right) {value : Json}
    (hlookup : right.lookup key = some value) : DistinctKeys value := by
  induction right with
  | nil => cases hlookup
  | cons entry right ih =>
    obtain ⟨k, v⟩ := entry
    rw [OrderedMap.lookup_cons_ite] at hlookup
    by_cases hk : key = k
    · rw [if_pos hk, Option.some.injEq] at hlookup
      rw [← hlookup]
      exact h.1
    · rw [if_neg hk] at hlookup
      exact ih h.2 hlookup

/-! ## What the comparisons hold of -/

theorem memberRead_own {value : Json} (h : right.lookup key = some value) :
    memberRead right key = .own value := by
  simp [memberRead, h]

theorem equalsPrototype_iff (value : Json) : equalsPrototype value = true ↔ value = .obj [] := by
  cases value with
  | obj members => cases members <;> simp [equalsPrototype]
  | _ => simp [equalsPrototype]

theorem member_equal_iff (right : List (String × Json)) (key : String) (value : Json) :
    (match memberRead right key with
      | .own other => deepEqualJson value other
      | .objectPrototype => equalsPrototype value
      | .method => false
      | .absent => false) = true ↔
      (∃ other, right.lookup key = some other ∧ deepEqualJson value other = true) ∨
        key = "__proto__" ∧ value = .obj [] ∧ right.lookup key = none := by
  cases hlookup : right.lookup key with
  | some other => simp [memberRead_own hlookup]
  | none =>
    unfold memberRead
    rw [hlookup]
    dsimp only
    by_cases hproto : key = "__proto__"
    · simp [hproto, equalsPrototype_iff]
    · rw [if_neg hproto]
      by_cases hmethod : key ∈ inheritedMethods
      · simp [hmethod, hproto]
      · simp [hmethod, hproto]

theorem same_or_disguised_iff {same disguised sameRest disguisedRest : Prop} :
    (same ∨ disguised) ∧ (sameRest ∨ disguisedRest) ↔
      same ∧ sameRest ∨
        (disguised ∧ (sameRest ∨ disguisedRest) ∨ same ∧ disguisedRest) := by
  tauto

mutual

/-- The shared comparison holds of the same data, and of values with replaced members. -/
theorem deepEqualJson_iff : ∀ {a b : Json}, DistinctKeys a → DistinctKeys b →
    (deepEqualJson a b = true ↔ SameData a b ∨ Disguised a b)
  | .null, b, _, _ => by cases b <;> simp [deepEqualJson, SameData, Disguised]
  | .bool _, b, _, _ => by cases b <;> simp [deepEqualJson, SameData, Disguised]
  | .int _, b, _, _ => by cases b <;> simp [deepEqualJson, SameData, Disguised]
  | .float _, b, _, _ => by cases b <;> simp [deepEqualJson, SameData, Disguised]
  | .str _, b, _, _ => by cases b <;> simp [deepEqualJson, SameData, Disguised]
  | .arr xs, b, ha, hb => by
      cases b with
      | arr ys => exact deepEqualJsonItems_iff ha hb
      | _ => simp [deepEqualJson, SameData, Disguised]
  | .obj left, b, ha, hb => by
      cases b with
      | obj right =>
        have hmembers : deepEqualJsonMembers left right = true ↔
            SameMembers left right ∨ DisguisedMembers left right :=
          deepEqualJsonMembers_iff ha.2 hb.2
        simp only [deepEqualJson, SameData, Disguised, Bool.and_eq_true, beq_iff_eq, hmembers]
        constructor
        · rintro ⟨hlength, hsame | hreplaced⟩
          · exact .inl ⟨keys_iff_of_length ha.1 hlength hsame.keys, hsame⟩
          · exact .inr ⟨hlength, hreplaced⟩
        · rintro (⟨hkeys, hsame⟩ | ⟨hlength, hreplaced⟩)
          · exact ⟨length_of_keys_iff ha.1 hb.1 hkeys, .inl hsame⟩
          · exact ⟨hlength, .inr hreplaced⟩
      | _ => simp [deepEqualJson, SameData, Disguised]

theorem deepEqualJsonItems_iff : ∀ {xs ys : List Json}, DistinctItems xs → DistinctItems ys →
    (deepEqualJsonItems xs ys = true ↔ SameItems xs ys ∨ DisguisedItems xs ys)
  | [], [], _, _ => by simp [deepEqualJsonItems, SameItems]
  | [], _ :: _, _, _ => by simp [deepEqualJsonItems, SameItems, DisguisedItems]
  | _ :: _, [], _, _ => by simp [deepEqualJsonItems, SameItems, DisguisedItems]
  | x :: xs, y :: ys, hx, hy => by
      simp only [deepEqualJsonItems, SameItems, DisguisedItems, Bool.and_eq_true,
        deepEqualJson_iff hx.1 hy.1, deepEqualJsonItems_iff hx.2 hy.2]
      exact same_or_disguised_iff

theorem deepEqualJsonMembers_iff : ∀ {left right : List (String × Json)}, DistinctMembers left →
    DistinctMembers right →
    (deepEqualJsonMembers left right = true ↔ SameMembers left right ∨ DisguisedMembers left right)
  | [], _, _, _ => by simp [deepEqualJsonMembers, SameMembers]
  | (key, value) :: left, right, hleft, hright => by
      have hrest := deepEqualJsonMembers_iff hleft.2 hright
      have hvalue : ∀ other, right.lookup key = some other →
          (deepEqualJson value other = true ↔ SameData value other ∨ Disguised value other) := by
        intro other hother
        exact deepEqualJson_iff hleft.1 (distinct_of_lookup hright hother)
      have hmember : (∃ other, right.lookup key = some other ∧ deepEqualJson value other = true) ↔
          (∃ other, right.lookup key = some other ∧ SameData value other) ∨
            ∃ other, right.lookup key = some other ∧ Disguised value other := by
        constructor
        · rintro ⟨other, hother, hequal⟩
          rcases (hvalue other hother).mp hequal with hsame | hreplaced
          · exact .inl ⟨other, hother, hsame⟩
          · exact .inr ⟨other, hother, hreplaced⟩
        · rintro (⟨other, hother, hsame⟩ | ⟨other, hother, hreplaced⟩)
          · exact ⟨other, hother, (hvalue other hother).mpr (.inl hsame)⟩
          · exact ⟨other, hother, (hvalue other hother).mpr (.inr hreplaced)⟩
      rw [deepEqualJsonMembers, Bool.and_eq_true, member_equal_iff, hmember, hrest, or_assoc]
      exact same_or_disguised_iff

end

mutual

/-- The comparison of the session core holds of the same data. -/
theorem deepEqual_iff : ∀ {a b : Json}, DistinctKeys a → DistinctKeys b →
    (Json.deepEqual a b = true ↔ SameData a b)
  | .null, b, _, _ => by cases b <;> simp [Json.deepEqual, SameData]
  | .bool _, b, _, _ => by cases b <;> simp [Json.deepEqual, SameData]
  | .int _, b, _, _ => by cases b <;> simp [Json.deepEqual, SameData]
  | .float _, b, _, _ => by cases b <;> simp [Json.deepEqual, SameData]
  | .str _, b, _, _ => by cases b <;> simp [Json.deepEqual, SameData]
  | .arr xs, b, ha, hb => by
      cases b with
      | arr ys => exact deepEqualItems_iff ha hb
      | _ => simp [Json.deepEqual, SameData]
  | .obj left, b, ha, hb => by
      cases b with
      | obj right =>
        have hmembers : Json.deepEqualMembers left right = true ↔ SameMembers left right :=
          deepEqualMembers_iff ha.2 hb.2
        simp only [Json.deepEqual, SameData, Bool.and_eq_true, beq_iff_eq, hmembers]
        constructor
        · rintro ⟨hlength, hsame⟩
          exact ⟨keys_iff_of_length ha.1 hlength hsame.keys, hsame⟩
        · rintro ⟨hkeys, hsame⟩
          exact ⟨length_of_keys_iff ha.1 hb.1 hkeys, hsame⟩
      | _ => simp [Json.deepEqual, SameData]

theorem deepEqualItems_iff : ∀ {xs ys : List Json}, DistinctItems xs → DistinctItems ys →
    (Json.deepEqualItems xs ys = true ↔ SameItems xs ys)
  | [], [], _, _ => by simp [Json.deepEqualItems, SameItems]
  | [], _ :: _, _, _ => by simp [Json.deepEqualItems, SameItems]
  | _ :: _, [], _, _ => by simp [Json.deepEqualItems, SameItems]
  | x :: xs, y :: ys, hx, hy => by
      simp only [Json.deepEqualItems, SameItems, Bool.and_eq_true, deepEqual_iff hx.1 hy.1,
        deepEqualItems_iff hx.2 hy.2]

theorem deepEqualMembers_iff : ∀ {left right : List (String × Json)}, DistinctMembers left →
    DistinctMembers right → (Json.deepEqualMembers left right = true ↔ SameMembers left right)
  | [], _, _, _ => by simp [Json.deepEqualMembers, SameMembers]
  | (key, value) :: left, right, hleft, hright => by
      simp only [Json.deepEqualMembers, SameMembers, Bool.and_eq_true,
        deepEqualMembers_iff hleft.2 hright]
      cases hlookup : right.lookup key with
      | none => simp
      | some other =>
        have hvalue := deepEqual_iff hleft.1 (distinct_of_lookup hright hlookup)
        simp [hvalue]

end

mutual

/-- A value with replaced members has other data. -/
theorem Disguised.not_same : ∀ {a b : Json}, Disguised a b → ¬ SameData a b
  | .arr _, .arr _, h => DisguisedItems.not_same h
  | .obj _, .obj _, h => fun hsame => h.2.not_same (fun key => (hsame.1 key).mp) hsame.2

theorem DisguisedItems.not_same : ∀ {xs ys : List Json}, DisguisedItems xs ys → ¬ SameItems xs ys
  | _ :: _, _ :: _, .inl h => fun hsame => h.1.not_same hsame.1
  | _ :: _, _ :: _, .inr h => fun hsame => DisguisedItems.not_same h.2 hsame.2

theorem DisguisedMembers.not_same : ∀ {left right : List (String × Json)},
    DisguisedMembers left right →
    (∀ key, key ∈ OrderedMap.keys left → key ∈ OrderedMap.keys right) → ¬ SameMembers left right
  | (key, value) :: left, right, h => fun hkeys hsame => by
      obtain ⟨other, hother, hvalue⟩ := hsame.1
      rcases h with ⟨⟨other', hother', hdisguised⟩ | ⟨_, _, hnone⟩, _⟩ | ⟨_, hrest⟩
      · rw [hother] at hother'
        cases hother'
        exact hdisguised.not_same hvalue
      · rw [hother] at hnone
        cases hnone
      · exact hrest.not_same (fun k hk => hkeys k (List.mem_cons_of_mem _ hk)) hsame.2

end

/-! ## The same data -/

mutual

theorem SameData.refl : ∀ {a : Json}, DistinctKeys a → SameData a a
  | .null, _ => rfl
  | .bool _, _ => rfl
  | .int _, _ => rfl
  | .float _, _ => rfl
  | .str _, _ => rfl
  | .arr _, h => SameItems.refl h
  | .obj members, h => by
      refine ⟨fun _ => Iff.rfl, sameMembers_iff_lookup.mpr ?_⟩
      intro entry hentry
      refine ⟨entry.2, ?_, SameMembers.refl h.2 entry hentry⟩
      exact (OrderedMap.mem_iff_lookup h.1 entry.1 entry.2).mp hentry

theorem SameItems.refl : ∀ {xs : List Json}, DistinctItems xs → SameItems xs xs
  | [], _ => trivial
  | _ :: _, h => ⟨SameData.refl h.1, SameItems.refl h.2⟩

theorem SameMembers.refl : ∀ {members : List (String × Json)}, DistinctMembers members →
    ∀ entry ∈ members, SameData entry.2 entry.2
  | [], _ => List.forall_mem_nil _
  | _ :: _, h => List.forall_mem_cons.mpr ⟨SameData.refl h.1, SameMembers.refl h.2⟩

end

theorem lookup_of_mem_keys {members : List (String × Json)} (h : key ∈ OrderedMap.keys members) :
    ∃ value, members.lookup key = some value :=
  Option.isSome_iff_exists.mp ((OrderedMap.mem_keys_iff key members).mp h)

mutual

theorem SameData.symm : ∀ {a b : Json}, DistinctKeys a → DistinctKeys b → SameData a b →
    SameData b a
  | .arr _, .arr _, ha, hb, h => SameItems.symm ha hb h
  | .obj left, .obj right, ha, hb, h => by
      refine ⟨fun key => (h.1 key).symm, sameMembers_iff_lookup.mpr ?_⟩
      rintro ⟨key, other⟩ hentry
      have hother := (OrderedMap.mem_iff_lookup hb.1 key other).mp hentry
      obtain ⟨value, hvalue⟩ := lookup_of_mem_keys ((h.1 key).mpr (mem_keys_of_lookup hother))
      obtain ⟨other', hother', hsame⟩ := h.2.lookup (key, value) (OrderedMap.mem_of_lookup hvalue)
      rw [hother] at hother'
      cases hother'
      exact ⟨value, hvalue, SameMembers.symm ha.2 (key, value) (OrderedMap.mem_of_lookup hvalue)
        other (distinct_of_lookup hb.2 hother) hsame⟩
  | .null, _, _, _, h => by cases h; rfl
  | .bool _, _, _, _, h => by cases h; rfl
  | .int _, _, _, _, h => by cases h; rfl
  | .float _, _, _, _, h => by cases h; rfl
  | .str _, _, _, _, h => by cases h; rfl

theorem SameItems.symm : ∀ {xs ys : List Json}, DistinctItems xs → DistinctItems ys →
    SameItems xs ys → SameItems ys xs
  | [], [], _, _, _ => trivial
  | _ :: _, _ :: _, hx, hy, h => ⟨SameData.symm hx.1 hy.1 h.1, SameItems.symm hx.2 hy.2 h.2⟩

theorem SameMembers.symm : ∀ {members : List (String × Json)}, DistinctMembers members →
    ∀ entry ∈ members, ∀ other, DistinctKeys other → SameData entry.2 other →
      SameData other entry.2
  | [], _ => List.forall_mem_nil _
  | _ :: _, h => List.forall_mem_cons.mpr
      ⟨fun _ hother hsame => SameData.symm h.1 hother hsame, SameMembers.symm h.2⟩

end

mutual

theorem SameData.trans : ∀ {a b c : Json}, SameData a b → SameData b c → SameData a c
  | .arr _, .arr _, .arr _, h, h' => SameItems.trans h h'
  | .obj left, .obj middle, .obj right, h, h' => by
      refine ⟨fun key => (h.1 key).trans (h'.1 key), sameMembers_iff_lookup.mpr ?_⟩
      intro entry hentry
      obtain ⟨other, hother, hsame⟩ := h.2.lookup entry hentry
      obtain ⟨last, hlast, hsame'⟩ := h'.2.lookup (entry.1, other) (OrderedMap.mem_of_lookup hother)
      exact ⟨last, hlast, SameMembers.trans left entry hentry other last hsame hsame'⟩
  | .null, _, _, h, h' => by cases h; exact h'
  | .bool _, _, _, h, h' => by cases h; exact h'
  | .int _, _, _, h, h' => by cases h; exact h'
  | .float _, _, _, h, h' => by cases h; exact h'
  | .str _, _, _, h, h' => by cases h; exact h'

theorem SameItems.trans : ∀ {xs ys zs : List Json}, SameItems xs ys → SameItems ys zs →
    SameItems xs zs
  | [], [], [], _, _ => trivial
  | _ :: _, _ :: _, _ :: _, h, h' => ⟨SameData.trans h.1 h'.1, SameItems.trans h.2 h'.2⟩

theorem SameMembers.trans : ∀ (members : List (String × Json)), ∀ entry ∈ members,
    ∀ other last, SameData entry.2 other → SameData other last → SameData entry.2 last
  | [] => List.forall_mem_nil _
  | _ :: members => List.forall_mem_cons.mpr
      ⟨fun _ _ h h' => SameData.trans h h', SameMembers.trans members⟩

end

/-! ## Exactness -/

/-- The shared comparison decides the same data of a pair, as the one of the session core does. -/
structure EqualityExact (a b : Json) : Prop where
  exact : deepEqualJson a b = true ↔ SameData a b
  agrees : deepEqualJson a b = Json.deepEqual a b

/-- A set of values on which the shared comparison is an equivalence. -/
structure EqualityOn (values : Json → Prop) : Prop where
  refl : ∀ a, values a → deepEqualJson a a = true
  symm : ∀ a b, values a → values b → deepEqualJson a b = true → deepEqualJson b a = true
  trans : ∀ a b c, values a → values b → values c → deepEqualJson a b = true →
    deepEqualJson b c = true → deepEqualJson a c = true

/-- The shared comparison is exact for the pairs in which nothing stands in the place of an empty
`__proto__`. -/
theorem equality_exact_iff {a b : Json} (ha : DistinctKeys a) (hb : DistinctKeys b) :
    EqualityExact a b ↔ ¬ Disguised a b := by
  have hshared := deepEqualJson_iff ha hb
  have hcore := deepEqual_iff ha hb
  constructor
  · intro h hdisguised
    exact hdisguised.not_same (h.exact.mp (hshared.mpr (.inr hdisguised)))
  · intro hnot
    have hexact : deepEqualJson a b = true ↔ SameData a b := by
      rw [hshared]
      exact or_iff_left hnot
    refine ⟨hexact, Bool.eq_iff_iff.mpr ?_⟩
    rw [hexact, hcore]

theorem equalityOn_of_exact {values : Json → Prop} (hkeys : ∀ a, values a → DistinctKeys a)
    (h : ∀ a b, values a → values b → EqualityExact a b) : EqualityOn values where
  refl a ha := (h a a ha ha).exact.mpr (SameData.refl (hkeys a ha))
  symm a b ha hb hab := (h b a hb ha).exact.mpr
    (SameData.symm (hkeys a ha) (hkeys b hb) ((h a b ha hb).exact.mp hab))
  trans a b c ha hb hc hab hbc := (h a c ha hc).exact.mpr
    (SameData.trans ((h a b ha hb).exact.mp hab) ((h b c hb hc).exact.mp hbc))

end TianmaCoder
