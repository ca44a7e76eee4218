import TianmaCoder.Lib.Json

/-!
# Schemas of JSON values

A schema reads a JSON value: it refuses it, or gives the value it has rebuilt. A strict object
admits the members of its shape and no others, and rebuilds them in the order of the shape.

## Main definitions

* `Schema.strict`, `Schema.union` — strict objects and the first schema that accepts.
* `Schema.Stable` — what a schema has rebuilt, it reads back unchanged.

## Main results

* `Schema.stable_strict`, `Schema.stable_union`.
-/

namespace TianmaCoder

/-- A schema: refuse a value, or rebuild it. -/
abbrev Schema := Json → Option Json

namespace Schema

/-- One member of the shape of an object. -/
structure Field where
  name : String
  required : Bool
  schema : Schema

/-- Read one member of an object; an optional member may be absent. -/
def Field.read (field : Field) (value : Json) : Option (Option (String × Json)) :=
  match value.get? field.name with
  | none => if field.required then none else some none
  | some member => (field.schema member).map fun rebuilt => some (field.name, rebuilt)

/-- Read the members of a shape in its order. -/
def readFields (value : Json) : List Field → Option (List (String × Json))
  | [] => some []
  | field :: fields =>
    match field.read value, readFields value fields with
    | some (some member), some members => some (member :: members)
    | some none, some members => some members
    | _, _ => none

/-- `z.object(shape).strict()`. -/
def strict (fields : List Field) : Schema
  | .obj members =>
    if members.all fun member => fields.any fun field => field.name = member.1 then
      (readFields (.obj members) fields).map .obj
    else none
  | _ => none

/-- `z.object(shape)`: members out of the shape are dropped. -/
def object (fields : List Field) : Schema
  | .obj members => (readFields (.obj members) fields).map .obj
  | _ => none

/-- `z.null()`. -/
def null : Schema
  | .null => some .null
  | _ => none

/-- `z.number()`. -/
def number : Schema
  | .int n => some (.int n)
  | .float bits => some (.float bits)
  | _ => none

/-- `z.array(schema)`. -/
def array (schema : Schema) : Schema
  | .arr items => (items.mapM schema).map .arr
  | _ => none

/-- `z.literal(text)`. -/
def literal (text : String) : Schema
  | .str s => if s = text then some (.str s) else none
  | _ => none

/-- `z.string()`. -/
def string : Schema
  | .str s => some (.str s)
  | _ => none

/-- `z.string().min(1)`. -/
def nonEmptyString : Schema
  | .str s => if s = "" then none else some (.str s)
  | _ => none

/-- `z.enum(texts)`. -/
def oneOf (texts : List String) : Schema
  | .str s => if s ∈ texts then some (.str s) else none
  | _ => none

/-- A safe integer that is at least `least`. -/
def safeInteger (least : ℕ) : Schema
  | .int (.ofNat n) => if least ≤ n ∧ n ≤ Json.maxSafeInteger then some (.int (.ofNat n)) else none
  | _ => none

/-- `z.custom(test)`. -/
def custom (test : Json → Bool) : Schema := fun value => if test value then some value else none

/-- `z.union(schemas)`. -/
def union : List Schema → Schema
  | [], _ => none
  | schema :: schemas, value => (schema value).or (union schemas value)

/-- What a schema has rebuilt, it reads back unchanged. -/
def Stable (schema : Schema) : Prop := ∀ {v w}, schema v = some w → schema w = some w

/-- A schema that accepts a value only unchanged. -/
def Keeps (schema : Schema) : Prop := ∀ v w, schema v = some w → w = v

theorem Keeps.stable {schema : Schema} (h : Keeps schema) : Stable schema := by
  intro v w hw
  cases h v w hw
  exact hw

theorem keeps_literal (text : String) : Keeps (literal text) := by
  intro v w h
  cases v <;> simp_all [literal]

theorem keeps_string : Keeps string := by
  intro v w h
  cases v <;> simp_all [string]

theorem keeps_nonEmptyString : Keeps nonEmptyString := by
  intro v w h
  cases v <;> simp_all [nonEmptyString]

theorem keeps_oneOf (texts : List String) : Keeps (oneOf texts) := by
  intro v w h
  cases v <;> simp_all [oneOf]

theorem keeps_safeInteger (least : ℕ) : Keeps (safeInteger least) := by
  intro v w h
  unfold safeInteger at h
  split at h
  · split at h
    · cases h
      rfl
    · cases h
  · cases h

theorem keeps_custom (test : Json → Bool) : Keeps (custom test) := by
  intro v w h
  rw [custom] at h
  split at h
  · cases h
    rfl
  · cases h

/-! ### Strict objects -/

/-- The members that were read are those of the shape. -/
theorem name_of_mem_readFields {value : Json} {fields : List Field} {members : List (String × Json)}
    (h : readFields value fields = some members) {member : String × Json} (hm : member ∈ members) :
    ∃ field ∈ fields, field.name = member.1 := by
  induction fields generalizing members with
  | nil =>
    cases h
    cases hm
  | cons field fields ih =>
    rw [readFields] at h
    cases hread : field.read value with
    | none => simp [hread] at h
    | some read =>
      cases hrest : readFields value fields with
      | none => cases read <;> simp [hread, hrest] at h
      | some rest =>
        cases read with
        | none =>
          simp only [hread, hrest, Option.some.injEq] at h
          subst h
          obtain ⟨f, hf, hname⟩ := ih hrest hm
          exact ⟨f, List.mem_cons_of_mem _ hf, hname⟩
        | some first =>
          simp only [hread, hrest, Option.some.injEq] at h
          subst h
          rcases List.mem_cons.mp hm with rfl | hm
          · refine ⟨field, by simp, ?_⟩
            rw [Field.read] at hread
            split at hread
            · split at hread <;> cases hread
            · rw [Option.map_eq_some_iff] at hread
              obtain ⟨_, _, heq⟩ := hread
              cases heq
              rfl
          · obtain ⟨f, hf, hname⟩ := ih hrest hm
            exact ⟨f, List.mem_cons_of_mem _ hf, hname⟩

theorem lookup_readFields {value : Json} {fields : List Field}
    (hnames : (fields.map Field.name).Nodup) {members : List (String × Json)}
    (h : readFields value fields = some members) {field : Field} (hfield : field ∈ fields) :
    ∃ read, field.read value = some read ∧ members.lookup field.name = read.map Prod.snd := by
  induction fields generalizing members with
  | nil => cases hfield
  | cons first fields ih =>
    rw [List.map_cons, List.nodup_cons] at hnames
    rw [readFields] at h
    cases hread : first.read value with
    | none => simp [hread] at h
    | some read =>
      cases hrest : readFields value fields with
      | none => cases read <;> simp [hread, hrest] at h
      | some rest =>
        have habsent : rest.lookup first.name = none := by
          by_contra hsome
          have hmem := (OrderedMap.mem_keys_iff first.name rest).mpr
            (Option.isSome_iff_ne_none.mpr hsome)
          obtain ⟨member, hmember, hname⟩ := List.mem_map.mp hmem
          obtain ⟨f, hf, hfname⟩ := name_of_mem_readFields hrest hmember
          exact hnames.1 (List.mem_map.mpr ⟨f, hf, hfname.trans hname⟩)
        have hkey : ∀ member, read = some member → member.1 = first.name := by
          rintro member rfl
          rw [Field.read] at hread
          split at hread
          · split at hread <;> cases hread
          · rw [Option.map_eq_some_iff] at hread
            obtain ⟨_, _, heq⟩ := hread
            cases heq
            rfl
        cases read with
        | none =>
          simp only [hread, hrest, Option.some.injEq] at h
          subst h
          rcases List.mem_cons.mp hfield with rfl | hfield
          · exact ⟨none, hread, habsent⟩
          · exact ih hnames.2 hrest hfield
        | some member =>
          simp only [hread, hrest, Option.some.injEq] at h
          subst h
          have hname := hkey member rfl
          obtain ⟨key, rebuilt⟩ := member
          dsimp only at hname
          subst hname
          rcases List.mem_cons.mp hfield with rfl | hfield
          · exact ⟨_, hread, by simp⟩
          · have hne : field.name ≠ first.name := by
              intro heq
              exact hnames.1 (List.mem_map.mpr ⟨field, hfield, heq⟩)
            obtain ⟨read, hread', hlookup⟩ := ih hnames.2 hrest hfield
            exact ⟨read, hread', by simpa [hne] using hlookup⟩

theorem readFields_congr {value rebuilt : Json} {fields : List Field}
    (h : ∀ field ∈ fields, field.read rebuilt = field.read value) :
    readFields rebuilt fields = readFields value fields := by
  induction fields with
  | nil => rfl
  | cons field fields ih =>
    rw [List.forall_mem_cons] at h
    rw [readFields, readFields, h.1, ih h.2]

theorem strict_eq_some_iff {fields : List Field} {v w : Json} :
    strict fields v = some w ↔ ∃ members rebuilt, v = .obj members ∧ w = .obj rebuilt ∧
      (∀ member ∈ members, ∃ field ∈ fields, field.name = member.1) ∧
      readFields v fields = some rebuilt := by
  constructor
  · intro h
    cases v with
    | obj members =>
      rw [strict] at h
      split at h
      · next hall =>
          rw [Option.map_eq_some_iff] at h
          obtain ⟨rebuilt, hrebuilt, rfl⟩ := h
          refine ⟨members, rebuilt, rfl, rfl, ?_, hrebuilt⟩
          simpa using hall
      · cases h
    | _ => cases h
  · rintro ⟨members, rebuilt, rfl, rfl, hall, hread⟩
    rw [strict, if_pos (by simpa using hall), hread]
    rfl

theorem stable_strict {fields : List Field} (hnames : (fields.map Field.name).Nodup)
    (hstable : ∀ field ∈ fields, Stable field.schema) : Stable (strict fields) := by
  intro v w h
  obtain ⟨members, rebuilt, -, rfl, -, hread⟩ := strict_eq_some_iff.mp h
  refine strict_eq_some_iff.mpr ⟨rebuilt, rebuilt, rfl, rfl, ?_, ?_⟩
  · intro member hmember
    exact name_of_mem_readFields hread hmember
  · rw [← hread]
    refine readFields_congr ?_
    intro field hfield
    obtain ⟨read, hfirst, hlookup⟩ := lookup_readFields hnames hread hfield
    rw [hfirst, Field.read, Json.get?_obj, hlookup]
    rw [Field.read] at hfirst
    cases hget : v.get? field.name with
    | none =>
      simp only [hget] at hfirst
      split at hfirst
      · cases hfirst
      · next hoptional =>
          cases hfirst
          simp [hoptional]
    | some member =>
      simp only [hget, Option.map_eq_some_iff] at hfirst
      obtain ⟨again, hagain, rfl⟩ := hfirst
      simp [hstable field hfield hagain]

/-! ### Unions -/

theorem union_eq_some_iff {schemas : List Schema} {v w : Json} :
    union schemas v = some w ↔ ∃ earlier schema later, schemas = earlier ++ schema :: later ∧
      (∀ s ∈ earlier, s v = none) ∧ schema v = some w := by
  induction schemas with
  | nil => simp [union]
  | cons first schemas ih =>
    rw [union]
    cases hfirst : first v with
    | some u =>
      simp only [Option.some_or, Option.some.injEq]
      constructor
      · rintro rfl
        exact ⟨[], first, schemas, rfl, by simp, hfirst⟩
      · rintro ⟨earlier, schema, later, heq, hnone, hschema⟩
        cases earlier with
        | nil =>
          cases heq
          simpa using hfirst.symm.trans hschema
        | cons s earlier =>
          cases heq
          rw [hnone first (by simp)] at hfirst
          cases hfirst
    | none =>
      rw [Option.none_or, ih]
      constructor
      · rintro ⟨earlier, schema, later, rfl, hnone, hschema⟩
        refine ⟨first :: earlier, schema, later, rfl, ?_, hschema⟩
        rw [List.forall_mem_cons]
        exact ⟨hfirst, hnone⟩
      · rintro ⟨earlier, schema, later, heq, hnone, hschema⟩
        cases earlier with
        | nil =>
          cases heq
          rw [hfirst] at hschema
          cases hschema
        | cons s earlier =>
          cases heq
          rw [List.forall_mem_cons] at hnone
          exact ⟨earlier, schema, later, rfl, hnone.2, hschema⟩

theorem stable_union {schemas : List Schema} (hstable : ∀ schema ∈ schemas, Stable schema)
    (hapart : schemas.Pairwise fun s t => ∀ {v w}, t v = some w → s w = none) :
    Stable (union schemas) := by
  intro v w h
  obtain ⟨earlier, schema, later, rfl, -, hschema⟩ := union_eq_some_iff.mp h
  refine union_eq_some_iff.mpr ⟨earlier, schema, later, rfl, ?_, hstable schema (by simp) hschema⟩
  intro s hs
  exact (List.pairwise_append.mp hapart).2.2 s hs schema (by simp) hschema

theorem get?_of_strict {fields : List Field} (hnames : (fields.map Field.name).Nodup) {v w : Json}
    (h : strict fields v = some w) {field : Field} (hfield : field ∈ fields)
    (hrequired : field.required = true) :
    ∃ member rebuilt, v.get? field.name = some member ∧ field.schema member = some rebuilt ∧
      w.get? field.name = some rebuilt := by
  obtain ⟨members, rebuilt, -, rfl, -, hread⟩ := strict_eq_some_iff.mp h
  obtain ⟨read, hfirst, hlookup⟩ := lookup_readFields hnames hread hfield
  rw [Field.read] at hfirst
  cases hget : v.get? field.name with
  | none =>
    simp only [hget, hrequired, if_true] at hfirst
    cases hfirst
  | some member =>
    simp only [hget, Option.map_eq_some_iff] at hfirst
    obtain ⟨again, hagain, rfl⟩ := hfirst
    exact ⟨member, again, rfl, hagain, hlookup⟩

end Schema

end TianmaCoder
