import Mathlib.Data.Option.Basic
import Mathlib.Logic.Relation
import TianmaCoder.Lib.JsonText
import TianmaCoder.Util.JsonCopy
import TianmaCoder.Util.JsonEquality

/-!
# Snapshots of JSON values

A snapshot is taken exactly of the finite trees of plain values; objects in them may be shared. Its
data is that of the value, which its text parses back to. The equality of what was parsed is exact
but for values in which another member stands in the place of an empty `__proto__`.

## Main definitions

* `JsonWalk.Represents` — a value is a finite tree of plain values with this data.
* `JsonWalk.Unfit` — what JSON does not keep.

## Main results

* `JsonWalk.snapshotExact` — what is copied, and what is refused.
* `jsonSound_iff` — the sets of values over which equality and snapshots are exact.
-/

namespace TianmaCoder

namespace JsonWalk

/-! ## Finite trees of plain values -/

variable {source : Heap ScriptObject}

mutual

/-- A value is a finite tree of plain values with this data. -/
def Represents (source : Heap ScriptObject) : Json → ScriptValue → Prop
  | .null, value => value = .null
  | .bool b, value => value = .bool b
  | .int n, value => value = .int n
  | .float bits, value => value = .float bits
  | .str s, value => value = .str s
  | .arr js, value => ∃ r items, value = .ref r ∧
      source.read r = some (.array (items.map some) 0 true) ∧ RepresentsItems source js items
  | .obj js, value => ∃ r members, value = .ref r ∧
      source.read r = some (.record members 0 true) ∧ RepresentsMembers source js members.entries

def RepresentsItems (source : Heap ScriptObject) : List Json → List ScriptValue → Prop
  | [], items => items = []
  | j :: js, items => ∃ item rest, items = item :: rest ∧ Represents source j item ∧
      RepresentsItems source js rest

def RepresentsMembers (source : Heap ScriptObject) :
    List (String × Json) → List (String × ScriptValue) → Prop
  | [], members => members = []
  | (key, j) :: js, members => ∃ item rest, members = (key, item) :: rest ∧
      Represents source j item ∧ RepresentsMembers source js rest

end

mutual

/-- A value has one tree. -/
theorem Represents.unique : ∀ {j j' : Json} {value : ScriptValue}, Represents source j value →
    Represents source j' value → j = j'
  | .arr js, j', _, ⟨r, items, hvalue, hread, hitems⟩, h' => by
      subst hvalue
      cases j' with
      | arr js' =>
        obtain ⟨r', items', hvalue', hread', hitems'⟩ := h'
        cases hvalue'
        rw [hread, Option.some.injEq, ScriptObject.array.injEq] at hread'
        have heq : items = items' :=
          List.map_injective_iff.mpr (Option.some_injective _) hread'.1
        subst heq
        rw [hitems.unique hitems']
      | obj js' =>
        obtain ⟨r', members', hvalue', hread', -⟩ := h'
        cases hvalue'
        rw [hread] at hread'
        cases hread'
      | _ => cases h'
  | .obj js, j', _, ⟨r, members, hvalue, hread, hmembers⟩, h' => by
      subst hvalue
      cases j' with
      | arr js' =>
        obtain ⟨r', items', hvalue', hread', -⟩ := h'
        cases hvalue'
        rw [hread] at hread'
        cases hread'
      | obj js' =>
        obtain ⟨r', members', hvalue', hread', hmembers'⟩ := h'
        cases hvalue'
        rw [hread] at hread'
        cases hread'
        rw [hmembers.unique hmembers']
      | _ => cases h'
  | .null, j', _, h, h' => by
      subst h
      cases j' <;> simp [Represents] at h' ⊢
  | .bool _, j', _, h, h' => by
      subst h
      cases j' <;> simp [Represents] at h' ⊢
      exact h'
  | .int _, j', _, h, h' => by
      subst h
      cases j' <;> simp [Represents] at h' ⊢
      exact h'
  | .float _, j', _, h, h' => by
      subst h
      cases j' <;> simp [Represents] at h' ⊢
      exact h'
  | .str _, j', _, h, h' => by
      subst h
      cases j' <;> simp [Represents] at h' ⊢
      exact h'

theorem RepresentsItems.unique : ∀ {js js' : List Json} {items : List ScriptValue},
    RepresentsItems source js items → RepresentsItems source js' items → js = js'
  | [], [], _, _, _ => rfl
  | [], _ :: _, _, h, ⟨_, _, heq, _, _⟩ => by cases h; cases heq
  | _ :: _, [], _, ⟨_, _, heq, _, _⟩, h => by cases h; cases heq
  | _ :: _, _ :: _, _, ⟨_, _, heq, hj, hjs⟩, ⟨_, _, heq', hj', hjs'⟩ => by
      subst heq
      cases heq'
      rw [hj.unique hj', hjs.unique hjs']

theorem RepresentsMembers.unique : ∀ {js js' : List (String × Json)}
    {members : List (String × ScriptValue)}, RepresentsMembers source js members →
    RepresentsMembers source js' members → js = js'
  | [], [], _, _, _ => rfl
  | [], (_, _) :: _, _, h, ⟨_, _, heq, _, _⟩ => by cases h; cases heq
  | (_, _) :: _, [], _, ⟨_, _, heq, _, _⟩, h => by cases h; cases heq
  | (_, _) :: _, (_, _) :: _, _, ⟨_, _, heq, hj, hjs⟩, ⟨_, _, heq', hj', hjs'⟩ => by
      subst heq
      cases heq'
      rw [hj.unique hj', hjs.unique hjs']

end

/-! ## The recursion reads the trees -/

variable {value : ScriptValue} {j : Json}

theorem represents_of_data (h : value.data? = some j) : Represents source j value := by
  cases value <;> cases h <;> rfl

theorem data_of_represents (hvalue : ∀ r, value ≠ .ref r) (h : Represents source j value) :
    value.data? = some j := by
  cases j with
  | arr js =>
    obtain ⟨r, -, heq, -⟩ := h
    exact absurd heq (hvalue r)
  | obj js =>
    obtain ⟨r, -, heq, -⟩ := h
    exact absurd heq (hvalue r)
  | _ =>
    cases h
    rfl

section

variable {read : ScriptValue → Option Json}
  (hread : ∀ value j, read value = some j → Represents source j value)
include hread

theorem representsItems_of_mapM
    {items : List (Option ScriptValue)} {js : List Json}
    (h : items.mapM (fun (item : Option ScriptValue) => item.bind read) = some js) :
    ∃ values, items = values.map some ∧ RepresentsItems source js values := by
  induction items generalizing js with
  | nil =>
    cases h
    exact ⟨[], rfl, rfl⟩
  | cons item items ih =>
    rw [List.mapM_cons] at h
    obtain ⟨j, hj, h⟩ := Option.bind_eq_some_iff.mp h
    obtain ⟨js', hjs, h⟩ := Option.bind_eq_some_iff.mp h
    cases h
    obtain ⟨value, rfl, hvalue⟩ := Option.bind_eq_some_iff.mp hj
    obtain ⟨values, rfl, hvalues⟩ := ih hjs
    exact ⟨value :: values, rfl, value, values, rfl, hread value j hvalue, hvalues⟩

theorem representsMembers_of_mapM
    {members : List (String × ScriptValue)} {js : List (String × Json)}
    (h : members.mapM (fun entry => (read entry.2).map (entry.1, ·)) = some js) :
    RepresentsMembers source js members := by
  induction members generalizing js with
  | nil =>
    cases h
    rfl
  | cons entry members ih =>
    rw [List.mapM_cons] at h
    obtain ⟨j, hj, h⟩ := Option.bind_eq_some_iff.mp h
    obtain ⟨js', hjs, h⟩ := Option.bind_eq_some_iff.mp h
    cases h
    obtain ⟨value, hvalue, rfl⟩ := Option.map_eq_some_iff.mp hj
    exact ⟨entry.2, members, rfl, hread entry.2 value hvalue, ih hjs⟩

end

theorem filter_present (values : List ScriptValue) :
    (values.map some).filter Option.isSome = values.map some := by
  rw [List.filter_eq_self]
  simp

theorem extraKeys_eq_zero (values : List ScriptValue) {extraKeys : ℕ}
    (h : ((values.map some).filter Option.isSome).length + 1 + extraKeys =
      (values.map some).length + 1) : extraKeys = 0 := by
  rw [filter_present] at h
  omega

theorem represents_of_readTree (depth : ℕ) : ∀ (ancestors : List ℕ) (value : ScriptValue) (j : Json),
    readTree source depth ancestors value = some j → Represents source j value := by
  induction depth with
  | zero => exact fun _ _ _ h => represents_of_data h
  | succ depth ih =>
    intro ancestors value j h
    cases value with
    | ref r =>
      unfold readTree at h
      dsimp only at h
      split at h
      · cases h
      · split at h
        · rename_i items extraKeys plain hread
          split at h
          · rename_i hplain
            obtain ⟨js, hjs, rfl⟩ := Option.map_eq_some_iff.mp h
            obtain ⟨values, rfl, hvalues⟩ := representsItems_of_mapM (ih (r :: ancestors)) hjs
            have hextra := extraKeys_eq_zero values hplain.2
            rw [hextra, hplain.1] at hread
            exact ⟨r, values, rfl, hread, hvalues⟩
          · cases h
        · rename_i members hidden plain hread
          split at h
          · rename_i hplain
            obtain ⟨js, hjs, rfl⟩ := Option.map_eq_some_iff.mp h
            rw [hplain.1, hplain.2] at hread
            exact ⟨r, members, rfl, hread, representsMembers_of_mapM (ih (r :: ancestors)) hjs⟩
          · cases h
        · cases h
    | _ => exact represents_of_data h

/-- Each ancestor has a larger tree than this one. -/
def Above (source : Heap ScriptObject) (ancestors : List ℕ) (size : ℕ) : Prop :=
  ∀ a ∈ ancestors, ∃ j, Represents source j (.ref a) ∧ size < sizeOf j

theorem Above.not_mem {ancestors : List ℕ} {r : ℕ} {size : ℕ} (h : Above source ancestors size)
    (hj : Represents source j (.ref r)) (hsize : sizeOf j ≤ size) : r ∉ ancestors := by
  intro hr
  obtain ⟨j', hj', hlt⟩ := h r hr
  rw [hj'.unique hj] at hlt
  omega

theorem Above.push {ancestors : List ℕ} {r : ℕ} {size size' : ℕ} (h : Above source ancestors size)
    (hj : Represents source j (.ref r)) (hlt : size' < sizeOf j) (hle : size' ≤ size) :
    Above source (r :: ancestors) size' := by
  refine List.forall_mem_cons.mpr ⟨⟨j, hj, hlt⟩, ?_⟩
  intro a ha
  obtain ⟨j', hj', hsize⟩ := h a ha
  exact ⟨j', hj', by omega⟩

mutual

/-- A finite tree is read, since no object is below itself in it. -/
theorem readTree_of_represents : ∀ {j : Json} {value : ScriptValue}, Represents source j value →
    ∀ {depth : ℕ} {ancestors : List ℕ}, Descent source depth ancestors →
      Above source ancestors (sizeOf j) → readTree source depth ancestors value = some j
  | .arr js, value, h, 0, ancestors, hd, ha => by
      have hj := h
      obtain ⟨r, items, rfl, hread, -⟩ := h
      exact absurd (hd.mem (Heap.lt_of_read hread)) (ha.not_mem hj (Nat.le_refl _))
  | .arr js, value, h, depth + 1, ancestors, hd, ha => by
      have hj := h
      obtain ⟨r, items, rfl, hread, hitems⟩ := h
      have hr := ha.not_mem hj (Nat.le_refl _)
      have habove : Above source (r :: ancestors) (sizeOf js) := ha.push hj (by simp) (by simp)
      have hread' := readItems_of_represents hitems (hd.push hr (Heap.lt_of_read hread)) habove
      simp [readTree, hr, hread, hread', filter_present]
  | .obj js, value, h, 0, ancestors, hd, ha => by
      have hj := h
      obtain ⟨r, members, rfl, hread, -⟩ := h
      exact absurd (hd.mem (Heap.lt_of_read hread)) (ha.not_mem hj (Nat.le_refl _))
  | .obj js, value, h, depth + 1, ancestors, hd, ha => by
      have hj := h
      obtain ⟨r, members, rfl, hread, hmembers⟩ := h
      have hr := ha.not_mem hj (Nat.le_refl _)
      have habove : Above source (r :: ancestors) (sizeOf js) := ha.push hj (by simp) (by simp)
      have hread' := readMembers_of_represents hmembers (hd.push hr (Heap.lt_of_read hread)) habove
      simp [readTree, hr, hread, hread']
  | .null, _, h, depth, _, _, _ => by cases h; cases depth <;> rfl
  | .bool _, _, h, depth, _, _, _ => by cases h; cases depth <;> rfl
  | .int _, _, h, depth, _, _, _ => by cases h; cases depth <;> rfl
  | .float _, _, h, depth, _, _, _ => by cases h; cases depth <;> rfl
  | .str _, _, h, depth, _, _, _ => by cases h; cases depth <;> rfl

theorem readItems_of_represents : ∀ {js : List Json} {items : List ScriptValue},
    RepresentsItems source js items → ∀ {depth : ℕ} {ancestors : List ℕ},
      Descent source depth ancestors → Above source ancestors (sizeOf js) →
      (items.map some).mapM (fun (item : Option ScriptValue) =>
        item.bind (readTree source depth ancestors)) = some js
  | [], _, h, _, _, _, _ => by cases h; rfl
  | j :: js, _, ⟨item, rest, heq, hj, hjs⟩, depth, ancestors, hd, ha => by
      subst heq
      have hsizes : sizeOf (j :: js) = 1 + sizeOf j + sizeOf js := rfl
      have hitem := readTree_of_represents hj hd (fun a hmem => by
        obtain ⟨j', hj', hlt⟩ := ha a hmem
        exact ⟨j', hj', by omega⟩)
      have hrest := readItems_of_represents hjs hd (fun a hmem => by
        obtain ⟨j', hj', hlt⟩ := ha a hmem
        exact ⟨j', hj', by omega⟩)
      simp [List.mapM_cons, hitem, hrest]

theorem readMembers_of_represents : ∀ {js : List (String × Json)}
    {members : List (String × ScriptValue)}, RepresentsMembers source js members →
    ∀ {depth : ℕ} {ancestors : List ℕ}, Descent source depth ancestors →
      Above source ancestors (sizeOf js) →
      members.mapM (fun entry => (readTree source depth ancestors entry.2).map (entry.1, ·)) =
        some js
  | [], _, h, _, _, _, _ => by cases h; rfl
  | (key, j) :: js, _, ⟨item, rest, heq, hj, hjs⟩, depth, ancestors, hd, ha => by
      subst heq
      have hsizes : sizeOf ((key, j) :: js) = 1 + sizeOf (key, j) + sizeOf js := rfl
      have hentry : sizeOf (key, j) = 1 + sizeOf key + sizeOf j := rfl
      have hitem := readTree_of_represents hj hd (fun a hmem => by
        obtain ⟨j', hj', hlt⟩ := ha a hmem
        exact ⟨j', hj', by omega⟩)
      have hrest := readMembers_of_represents hjs hd (fun a hmem => by
        obtain ⟨j', hj', hlt⟩ := ha a hmem
        exact ⟨j', hj', by omega⟩)
      simp [List.mapM_cons, hitem, hrest]

end

/-! ## What JSON does not keep -/

/-- A value is an item or a member of another. -/
inductive Child (source : Heap ScriptObject) : ScriptValue → ScriptValue → Prop where
  | item {r : ℕ} {items : List (Option ScriptValue)} {extraKeys : ℕ} {plain : Bool}
      {value : ScriptValue} (hread : source.read r = some (.array items extraKeys plain))
      (hmem : some value ∈ items) : Child source (.ref r) value
  | member {r : ℕ} {members : OwnMembers} {hidden : ℕ} {plain : Bool}
      {entry : String × ScriptValue} (hread : source.read r = some (.record members hidden plain))
      (hmem : entry ∈ members.entries) : Child source (.ref r) entry.2

/-- An array with a hole. -/
def Sparse (source : Heap ScriptObject) (value : ScriptValue) : Prop :=
  ∃ r items extraKeys plain, value = .ref r ∧
    source.read r = some (.array items extraKeys plain) ∧ none ∈ items

/-- A value that has no JSON text of its own: a number that is not finite or a negative zero, a value
of another type, a sparse array, or an object below itself. -/
inductive Unfit (source : Heap ScriptObject) (value : ScriptValue) : Prop where
  | number (h : value ∈ [.nan, .posInfinity, .negInfinity, .negZero])
  | other (h : value ∈ [.undefined, .foreign])
  | sparse (h : Sparse source value)
  | cyclic (h : Relation.TransGen (Child source) value value)

theorem represents_of_mem_items {js : List Json} {items : List ScriptValue}
    (h : RepresentsItems source js items) (hmem : value ∈ items) :
    ∃ j, Represents source j value ∧ sizeOf j < sizeOf js := by
  induction js generalizing items with
  | nil =>
    cases h
    cases hmem
  | cons j js ih =>
    obtain ⟨item, rest, rfl, hj, hjs⟩ := h
    rcases List.mem_cons.mp hmem with rfl | hrest
    · exact ⟨j, hj, by simp; omega⟩
    · obtain ⟨j', hj', hlt⟩ := ih hjs hrest
      exact ⟨j', hj', by simp; omega⟩

theorem represents_of_mem_members {js : List (String × Json)}
    {members : List (String × ScriptValue)} (h : RepresentsMembers source js members)
    {entry : String × ScriptValue} (hmem : entry ∈ members) :
    ∃ j, Represents source j entry.2 ∧ sizeOf j < sizeOf js := by
  induction js generalizing members with
  | nil =>
    cases h
    cases hmem
  | cons first js ih =>
    obtain ⟨key, j⟩ := first
    obtain ⟨item, rest, rfl, hj, hjs⟩ := h
    rcases List.mem_cons.mp hmem with rfl | hrest
    · exact ⟨j, hj, by simp; omega⟩
    · obtain ⟨j', hj', hlt⟩ := ih hjs hrest
      exact ⟨j', hj', by simp; omega⟩

variable {other : ScriptValue}

/-- What is in a finite tree is a smaller one. -/
theorem Represents.child (h : Represents source j value) (hchild : Child source value other) :
    ∃ j', Represents source j' other ∧ sizeOf j' < sizeOf j := by
  cases hchild with
  | item hread hmem =>
    cases j with
    | arr js =>
      obtain ⟨r, items, heq, hread', hitems⟩ := h
      cases heq
      rw [hread, Option.some.injEq, ScriptObject.array.injEq] at hread'
      rw [hread'.1] at hmem
      obtain ⟨value, hvalue, heq⟩ := List.mem_map.mp hmem
      cases heq
      obtain ⟨j', hj', hlt⟩ := represents_of_mem_items hitems hvalue
      exact ⟨j', hj', by simp; omega⟩
    | obj js =>
      obtain ⟨r, members, heq, hread', -⟩ := h
      cases heq
      rw [hread] at hread'
      cases hread'
    | _ => cases h
  | member hread hmem =>
    cases j with
    | arr js =>
      obtain ⟨r, items, heq, hread', -⟩ := h
      cases heq
      rw [hread] at hread'
      cases hread'
    | obj js =>
      obtain ⟨r, members, heq, hread', hmembers⟩ := h
      cases heq
      rw [hread] at hread'
      cases hread'
      obtain ⟨j', hj', hlt⟩ := represents_of_mem_members hmembers hmem
      exact ⟨j', hj', by simp; omega⟩
    | _ => cases h

theorem Represents.below (h : Represents source j value)
    (hbelow : Relation.TransGen (Child source) value other) :
    ∃ j', Represents source j' other ∧ sizeOf j' < sizeOf j := by
  induction hbelow with
  | single hchild => exact h.child hchild
  | tail _ hchild ih =>
    obtain ⟨j', hj', hlt⟩ := ih
    obtain ⟨j'', hj'', hlt'⟩ := hj'.child hchild
    exact ⟨j'', hj'', by omega⟩

/-- Nothing in a finite tree is unfit. -/
theorem Represents.not_unfit (h : Represents source j value) : ¬ Unfit source value := by
  intro hunfit
  cases hunfit with
  | number hmem =>
    simp only [List.mem_cons, List.not_mem_nil, or_false] at hmem
    rcases hmem with rfl | rfl | rfl | rfl <;> cases data_of_represents (by simp) h
  | other hmem =>
    simp only [List.mem_cons, List.not_mem_nil, or_false] at hmem
    rcases hmem with rfl | rfl <;> cases data_of_represents (by simp) h
  | sparse hsparse =>
    obtain ⟨r, items, extraKeys, plain, rfl, hread, hmem⟩ := hsparse
    cases j with
    | arr js =>
      obtain ⟨r', values, heq, hread', -⟩ := h
      cases heq
      rw [hread, Option.some.injEq, ScriptObject.array.injEq] at hread'
      rw [hread'.1] at hmem
      simp at hmem
    | obj js =>
      obtain ⟨r', members, heq, hread', -⟩ := h
      cases heq
      rw [hread] at hread'
      cases hread'
    | _ => cases h
  | cyclic hcycle =>
    obtain ⟨j', hj', hlt⟩ := h.below hcycle
    rw [hj'.unique h] at hlt
    omega

/-! ## Snapshots -/

/-- Validate and detach a value, in at most `fuel` tasks. -/
def snapshotJsonValue (source : Heap ScriptObject) (fuel : ℕ) (value : ScriptValue) : WalkResult :=
  run source true fuel (start true value)

/-- Test a value by the same rules, without a copy. -/
def isJsonValue (source : Heap ScriptObject) (fuel : ℕ) (value : ScriptValue) : WalkResult :=
  run source false fuel (start false value)

/-- With enough fuel the test ends as the snapshot does. -/
theorem isJsonValue_eq (fuel : ℕ) (value : ScriptValue) :
    isJsonValue source fuel value = (snapshotJsonValue source fuel value).forget :=
  run_forget fuel (start true value)

/-- A detached copy in new objects with this data, which its text parses back to. -/
structure IsCopy (j : Json) (output : Output) : Prop where
  copy : ∃ item, output.root = some item ∧
    Builds output.targets 0 output.targets.cells.length j item
  roundTrip : Json.parse (Json.stringify j) = some j

/-- The snapshot of a finite tree of plain values. -/
theorem snapshot_of_represents (h : Represents source j value) :
    ∃ n output, IsCopy j output ∧
      ∀ fuel, snapshotJsonValue source (fuel + n) value = .finished output := by
  have hread : readTree source source.cells.length [] value = some j :=
    readTree_of_represents h (descent_nil source) (List.forall_mem_nil _)
  have hpass := visit_spec source.cells.length [] (descent_nil source) value .root
  obtain ⟨item, output, hd, n, hn⟩ := hpass.delivered ⟨none, Heap.empty⟩ []
    (fun t ht => by cases ht) j hread
  refine ⟨n, output, ⟨⟨item, hd.root, hd.built⟩, Json.parse_stringify j⟩, fun fuel => ?_⟩
  exact (hn fuel).trans (run_nil fuel [] output)

theorem refused_of_not_represents (h : ∀ j, ¬ Represents source j value) :
    ∃ n, ∀ fuel, snapshotJsonValue source (fuel + n) value = .refused := by
  have hread : readTree source source.cells.length [] value = none := by
    cases hread : readTree source source.cells.length [] value with
    | none => rfl
    | some j => exact absurd (represents_of_readTree _ _ _ _ hread) (h j)
  have hpass := visit_spec source.cells.length [] (descent_nil source) value .root
  exact hpass.refused ⟨none, Heap.empty⟩ [] (fun t ht => by cases ht) hread

/-- Whether a value is accepted, what the snapshot of it is, and what is refused. -/
structure SnapshotExact (source : Heap ScriptObject) (value : ScriptValue) : Prop where
  ends : ∃ n, ∀ fuel, snapshotJsonValue source (fuel + n) value ≠ .unfinished ∧
    isJsonValue source (fuel + n) value ≠ .unfinished
  accepts : ∀ fuel, (∃ output, snapshotJsonValue source fuel value = .finished output) ↔
    ∃ output, isJsonValue source fuel value = .finished output
  returns : (∃ fuel output, snapshotJsonValue source fuel value = .finished output) ↔
    ∃ j, Represents source j value
  copies : ∀ fuel output, snapshotJsonValue source fuel value = .finished output →
    ∃ j, Represents source j value ∧ IsCopy j output
  refuses : ∀ other, Relation.ReflTransGen (Child source) value other → Unfit source other →
    ∃ n, ∀ fuel, snapshotJsonValue source (fuel + n) value = .refused ∧
      isJsonValue source (fuel + n) value = .refused

theorem run_mono {detach : Bool} {fuel : ℕ} {s : WalkState} {output : Output}
    (h : run source detach fuel s = .finished output) (more : ℕ) :
    run source detach (fuel + more) s = .finished output := by
  induction fuel generalizing s with
  | zero =>
    unfold run at h
    split at h
    · rename_i hempty
      cases more with
      | zero => rw [Nat.add_zero, run, if_pos hempty, h]
      | succ more => rw [Nat.zero_add, run, if_pos hempty, h]
    · cases h
  | succ fuel ih =>
    rw [show fuel + 1 + more = fuel + more + 1 by omega]
    unfold run at h ⊢
    split at h
    · rename_i hempty
      rw [if_pos hempty, h]
    · rename_i hempty
      rw [if_neg hempty]
      cases hstep : step source detach s with
      | none => simp [hstep] at h
      | some s' =>
        simp only [hstep] at h
        exact ih h

theorem forget_finished_iff (result : WalkResult) :
    (∃ output, result = .finished output) ↔ ∃ output, result.forget = .finished output := by
  cases result <;> simp [WalkResult.forget]

/-- Two runs that end with a copy end with the same. -/
theorem snapshot_unique {n fuel : ℕ} {output output' : Output}
    (h : ∀ fuel, snapshotJsonValue source (fuel + n) value = .finished output)
    (h' : snapshotJsonValue source fuel value = .finished output') : output' = output := by
  have hmore : snapshotJsonValue source (fuel + n) value = .finished output' := run_mono h' n
  rw [h fuel] at hmore
  cases hmore
  rfl

theorem not_finished_of_refused {n fuel : ℕ} {output : Output}
    (h : ∀ fuel, snapshotJsonValue source (fuel + n) value = .refused) :
    snapshotJsonValue source fuel value ≠ .finished output := by
  intro h'
  have hmore : snapshotJsonValue source (fuel + n) value = .finished output := run_mono h' n
  rw [h fuel] at hmore
  cases hmore

/-- The trees below a finite tree are finite. -/
theorem Represents.reach (h : Represents source j value)
    (hreach : Relation.ReflTransGen (Child source) value other) :
    ∃ j', Represents source j' other := by
  rcases Relation.reflTransGen_iff_eq_or_transGen.mp hreach with rfl | hbelow
  · exact ⟨j, h⟩
  · obtain ⟨j', hj', -⟩ := h.below hbelow
    exact ⟨j', hj'⟩

theorem snapshotExact (source : Heap ScriptObject) (value : ScriptValue) :
    SnapshotExact source value := by
  have haccepts : ∀ fuel, (∃ output, snapshotJsonValue source fuel value = .finished output) ↔
      ∃ output, isJsonValue source fuel value = .finished output := by
    intro fuel
    rw [isJsonValue_eq]
    exact forget_finished_iff _
  by_cases h : ∃ j, Represents source j value
  · obtain ⟨j, hj⟩ := h
    obtain ⟨n, output, hcopy, hrun⟩ := snapshot_of_represents hj
    refine ⟨⟨n, fun fuel => ?_⟩, haccepts, ⟨fun _ => ⟨j, hj⟩, fun _ => ⟨0 + n, output, hrun 0⟩⟩,
      fun fuel output' h' => ?_, fun other hreach hunfit => ?_⟩
    · rw [isJsonValue_eq, hrun]
      simp [WalkResult.forget]
    · rw [snapshot_unique hrun h']
      exact ⟨j, hj, hcopy⟩
    · obtain ⟨j', hj'⟩ := hj.reach hreach
      exact absurd hunfit hj'.not_unfit
  · obtain ⟨n, hrun⟩ := refused_of_not_represents (fun j hj => h ⟨j, hj⟩)
    have hboth : ∀ fuel, snapshotJsonValue source (fuel + n) value = .refused ∧
        isJsonValue source (fuel + n) value = .refused := by
      intro fuel
      rw [isJsonValue_eq, hrun]
      exact ⟨rfl, rfl⟩
    refine ⟨⟨n, fun fuel => ?_⟩, haccepts, ⟨fun hfinished => ?_, fun hj => absurd hj h⟩,
      fun fuel output h' => ?_, fun _ _ _ => ⟨n, hboth⟩⟩
    · rw [(hboth fuel).1, (hboth fuel).2]
      simp
    · obtain ⟨fuel, output, h'⟩ := hfinished
      exact absurd h' (not_finished_of_refused hrun)
    · exact absurd h' (not_finished_of_refused hrun)

end JsonWalk

/-! ## Equality and snapshots together -/

open JsonWalk

/-- Over a set of parsed values equality is exact and an equivalence, and snapshots are exact. -/
structure JsonSound (values : Json → Prop) : Prop where
  equality : ∀ a b, values a → values b → EqualityExact a b
  equivalence : EqualityOn values
  snapshots : ∀ source value, SnapshotExact source value

/-- Sets of parsed values in which none is another with something in the place of an empty
`__proto__`. -/
theorem jsonSound_iff (values : Json → Prop) (hkeys : ∀ a, values a → DistinctKeys a) :
    JsonSound values ↔ ∀ a b, values a → values b → ¬ Disguised a b := by
  constructor
  · intro h a b ha hb
    exact (equality_exact_iff (hkeys a ha) (hkeys b hb)).mp (h.equality a b ha hb)
  · intro h
    have hexact : ∀ a b, values a → values b → EqualityExact a b := by
      intro a b ha hb
      exact (equality_exact_iff (hkeys a ha) (hkeys b hb)).mpr (h a b ha hb)
    exact ⟨hexact, equalityOn_of_exact hkeys hexact, snapshotExact⟩

/-- Objects that own `__proto__` and `constructor`, with the members in both orders. -/
theorem jsonSound_ownProto :
    JsonSound fun a =>
      a = .obj [("__proto__", .obj []), ("constructor", .int 1)] ∨
      a = .obj [("constructor", .int 1), ("__proto__", .obj [])] := by
  have hkeys : ∀ a, a = Json.obj [("__proto__", .obj []), ("constructor", .int 1)] ∨
      a = Json.obj [("constructor", .int 1), ("__proto__", .obj [])] → DistinctKeys a := by
    rintro a (rfl | rfl)
    · exact ⟨by decide, ⟨List.nodup_nil, trivial⟩, trivial, trivial⟩
    · exact ⟨by decide, trivial, ⟨List.nodup_nil, trivial⟩, trivial⟩
  refine (jsonSound_iff _ hkeys).mpr ?_
  intro a b ha hb hdisguised
  refine hdisguised.not_same ((deepEqual_iff (hkeys a ha) (hkeys b hb)).mp ?_)
  rcases ha with rfl | rfl <;> rcases hb with rfl | rfl <;> decide

/-- An own empty `__proto__` is found in an object that owns another member only. -/
theorem emptyProto_equals_other :
    deepEqualJson (.obj [("__proto__", .obj [])]) (.obj [("a", .int 1)]) = true ∧
      deepEqualJson (.obj [("a", .int 1)]) (.obj [("__proto__", .obj [])]) = false ∧
      Json.deepEqual (.obj [("__proto__", .obj [])]) (.obj [("a", .int 1)]) = false ∧
      ¬ JsonSound fun a => a = .obj [("__proto__", .obj [])] ∨ a = .obj [("a", .int 1)] := by
  refine ⟨by decide, by decide, by decide, fun h => ?_⟩
  exact absurd (h.equality _ _ (.inl rfl) (.inr rfl)).agrees (by decide)

end TianmaCoder
