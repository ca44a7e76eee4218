import Mathlib.Data.Int.Notation
import Mathlib.Data.Int.Order.Basic
import TianmaCoder.Lib.Newest
import TianmaCoder.Lib.OrderedMap

/-!
# The projection values of a client session

The client keeps one row for each projection key. A sequenced row came from the connected Host
with the position it is consistent with; a cached row was viewed from a persisted checkpoint and
yields to every sequenced write. A baseline writes every key it carries and clears the others.

## Main definitions

* `ProjectionValueStore` — the rows, with `apply`, `applyCached`, `seed` and `clear`.
* `Arrival` — one write as it arrives; `Arrival.word` — what it says about a key.

## Main results

* `row_receive` — what an arrival does to one row.
-/

namespace TianmaCoder

variable {V : Type*}

/-- Own values by key. -/
structure ProjectionValues (V : Type*) where
  entries : OrderedMap String V
  nodup : (OrderedMap.keys entries).Nodup

/-- A baseline: whole current values as of one cut. -/
structure ProjectionsBaseline (V : Type*) where
  /-- The consistent-cut seq. -/
  asOfSeq : ℤ
  values : ProjectionValues V

/-- The row of one key. -/
inductive ProjectionRow (V : Type*) where
  | cached (value : V)
  | sequenced (value : V) (seq : ℤ)
  deriving DecidableEq

namespace ProjectionRow

def value : ProjectionRow V → V
  | .cached value => value
  | .sequenced value _ => value

def isCached : ProjectionRow V → Bool
  | .cached _ => true
  | .sequenced _ _ => false

/-- A sequenced row past a cut. -/
def isPast (asOfSeq : ℤ) : ProjectionRow V → Bool
  | .cached _ => false
  | .sequenced _ seq => asOfSeq < seq

/-- A row after a sequenced write: the higher seq wins, and a cached row always yields. -/
def merge (row : Option (ProjectionRow V)) (value : V) (seq : ℤ) : ProjectionRow V :=
  match row with
  | some (.sequenced kept keptSeq) =>
    if seq ≤ keptSeq then .sequenced kept keptSeq else .sequenced value seq
  | _ => .sequenced value seq

/-- A row after a cached write, which lands only where no sequenced row is. -/
def fill (row : Option (ProjectionRow V)) (value : V) : ProjectionRow V :=
  match row with
  | some (.sequenced kept keptSeq) => .sequenced kept keptSeq
  | _ => .cached value

end ProjectionRow

/-- The projection values of one session. -/
structure ProjectionValueStore (V : Type*) where
  rows : OrderedMap String (ProjectionRow V)
  nodup : (OrderedMap.keys rows).Nodup

namespace ProjectionValueStore

variable (store : ProjectionValueStore V)

/-- A store that has never seen a key. -/
def empty : ProjectionValueStore V := ⟨[], List.nodup_nil⟩

def row (key : String) : Option (ProjectionRow V) := store.rows.lookup key

/-- The current whole value for a key; `none` while the key is absent. -/
def get (key : String) : Option V := (store.row key).map (·.value)

/-- `rows.set(key, row)`. -/
def set (key : String) (row : ProjectionRow V) : ProjectionValueStore V :=
  ⟨OrderedMap.set key row store.rows, OrderedMap.nodup_keys_set store.nodup key row⟩

/-- Keep the rows that pass a test. -/
def keep (test : String × ProjectionRow V → Bool) : ProjectionValueStore V :=
  ⟨store.rows.filter test, OrderedMap.nodup_keys_filter store.nodup test⟩

/-- Apply one finished value from the session control stream. -/
def apply (key : String) (value : V) (seq : ℤ) : ProjectionValueStore V :=
  match store.row key with
  | some (.sequenced _ keptSeq) =>
    if seq ≤ keptSeq then store else store.set key (.sequenced value seq)
  | _ => store.set key (.sequenced value seq)

/-- Fill the keys of a cached list block that no sequenced row holds. -/
def applyCached (values : ProjectionValues V) : ProjectionValueStore V :=
  values.entries.foldl (fun store entry =>
    if (store.row entry.1).any (!·.isCached) then store
    else store.set entry.1 (.cached entry.2)) store

/-- Seed from a baseline: cached rows go, carried keys land under the seq rule, and the rows of
omitted keys go unless a newer frame superseded the cut. -/
def seed (baseline : ProjectionsBaseline V) : ProjectionValueStore V :=
  let uncached := store.keep fun entry => !entry.2.isCached
  let seeded := baseline.values.entries.foldl (fun store entry =>
    store.apply entry.1 entry.2 baseline.asOfSeq) uncached
  seeded.keep fun entry =>
    (baseline.values.entries.lookup entry.1).isSome || entry.2.isPast baseline.asOfSeq

end ProjectionValueStore

/-- One write of a Host generation, as it arrives. -/
inductive Arrival (V : Type*) where
  | frame (key : String) (value : V) (seq : ℤ)
  | baseline (baseline : ProjectionsBaseline V)
  | cached (values : ProjectionValues V)

namespace Arrival

/-- What a sequenced write says about a key: its position, and the value or the absence. A cached
block says nothing. -/
def word (key : String) : Arrival V → Option (ℤ × Option V)
  | .frame k value seq => if k = key then some (seq, some value) else none
  | .baseline cut => some (cut.asOfSeq, cut.values.entries.lookup key)
  | .cached _ => none

/-- The value that a cached block carries for a key. -/
def cachedValue (key : String) : Arrival V → Option V
  | .cached values => values.entries.lookup key
  | _ => none

end Arrival

namespace ProjectionValueStore

/-- Deliver one write. -/
def receive (store : ProjectionValueStore V) : Arrival V → ProjectionValueStore V
  | .frame key value seq => store.apply key value seq
  | .baseline baseline => store.seed baseline
  | .cached values => store.applyCached values

/-- The store after the writes of a generation, in their order of arrival. -/
def receiveAll (arrivals : List (Arrival V)) : ProjectionValueStore V :=
  arrivals.foldl receive empty

theorem receiveAll_snoc (arrivals : List (Arrival V)) (arrival : Arrival V) :
    receiveAll (arrivals ++ [arrival]) = (receiveAll arrivals).receive arrival := by
  simp [receiveAll]

/-! ## One row -/

section Rows

variable (store : ProjectionValueStore V) (key : String)

@[simp] theorem row_empty : (empty : ProjectionValueStore V).row key = none := rfl

theorem row_set (k : String) (r : ProjectionRow V) :
    (store.set k r).row key = if key = k then some r else store.row key :=
  OrderedMap.lookup_set k key r store.rows

theorem row_keep (test : String × ProjectionRow V → Bool) :
    (store.keep test).row key = (store.row key).filter fun r => test (key, r) :=
  OrderedMap.lookup_filter store.nodup test key

theorem row_apply (k : String) (value : V) (seq : ℤ) :
    (store.apply k value seq).row key =
      if key = k then some (ProjectionRow.merge (store.row k) value seq) else store.row key := by
  unfold apply ProjectionRow.merge
  split
  · next kept keptSeq hrow =>
      by_cases hseq : seq ≤ keptSeq
      · rw [if_pos hseq, if_pos hseq]
        by_cases hk : key = k
        · rw [if_pos hk, hk, hrow]
        · rw [if_neg hk]
      · rw [if_neg hseq, if_neg hseq, row_set]
  · rw [row_set]

/-- Carried keys merge one by one. -/
theorem row_applyAll (seq : ℤ) {entries : OrderedMap String V}
    (hnodup : (OrderedMap.keys entries).Nodup) :
    (entries.foldl (fun store entry => store.apply entry.1 entry.2 seq) store).row key =
      match entries.lookup key with
      | some value => some (ProjectionRow.merge (store.row key) value seq)
      | none => store.row key := by
  refine OrderedMap.foldl_entries (f := row)
    (g := fun value row => some (ProjectionRow.merge row value seq)) (fun store entry l => ?_)
    hnodup store key
  rw [row_apply]
  by_cases hl : l = entry.1 <;> simp [hl]

theorem row_applyCached (values : ProjectionValues V) :
    (store.applyCached values).row key =
      match values.entries.lookup key with
      | some value => some (ProjectionRow.fill (store.row key) value)
      | none => store.row key := by
  refine OrderedMap.foldl_entries (f := row)
    (g := fun value row => some (ProjectionRow.fill row value)) (fun store entry l => ?_)
    values.nodup store key
  unfold ProjectionRow.fill
  cases hrow : store.row entry.1 with
  | none => by_cases hl : l = entry.1 <;> simp [row_set, hl, hrow]
  | some r =>
    cases r with
    | cached kept => by_cases hl : l = entry.1 <;> simp [ProjectionRow.isCached, row_set, hl, hrow]
    | sequenced kept seq => by_cases hl : l = entry.1 <;> simp [ProjectionRow.isCached, hl, hrow]

/-- A cached row yields, so that dropping it first changes nothing. -/
theorem merge_filter (row : Option (ProjectionRow V)) (value : V) (seq : ℤ) :
    ProjectionRow.merge (row.filter fun r => !r.isCached) value seq =
      ProjectionRow.merge row value seq := by
  cases row with
  | none => rfl
  | some r => cases r <;> rfl

theorem row_seed (baseline : ProjectionsBaseline V) :
    (store.seed baseline).row key =
      match baseline.values.entries.lookup key with
      | some value => some (ProjectionRow.merge (store.row key) value baseline.asOfSeq)
      | none => (store.row key).filter (·.isPast baseline.asOfSeq) := by
  unfold seed
  dsimp only
  rw [row_keep, row_applyAll _ _ _ baseline.values.nodup, row_keep]
  cases hlookup : baseline.values.entries.lookup key with
  | some value =>
    simp only [merge_filter, hlookup, Option.isSome_some, Bool.true_or]
    rfl
  | none =>
    simp only [hlookup, Option.isSome_none, Bool.false_or]
    cases hrow : store.row key with
    | none => rfl
    | some r => cases r <;> rfl

theorem row_receive (arrival : Arrival V) :
    (store.receive arrival).row key =
      match arrival.word key with
      | some (seq, some value) => some (ProjectionRow.merge (store.row key) value seq)
      | some (seq, none) => (store.row key).filter (·.isPast seq)
      | none =>
        match arrival.cachedValue key with
        | some value => some (ProjectionRow.fill (store.row key) value)
        | none => store.row key := by
  cases arrival with
  | frame k value seq =>
    rw [receive, row_apply]
    by_cases hk : key = k
    · subst hk
      simp only [Arrival.word, if_true]
    · simp only [Arrival.word, Arrival.cachedValue, if_neg hk, if_neg (Ne.symm hk)]
  | baseline cut =>
    rw [receive, row_seed]
    simp only [Arrival.word]
    cases cut.values.entries.lookup key <;> rfl
  | cached values =>
    rw [receive, row_applyCached]
    rfl

end Rows

end ProjectionValueStore

end TianmaCoder
