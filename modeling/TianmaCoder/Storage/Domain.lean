import TianmaCoder.Lib.OrderedMap
import TianmaCoder.Lib.Transition

/-!
# One open storage domain

The runtime of an open domain: the records and the global value in memory, the chain on which
every write waits for its turn, and the teardown that drains it. A write first becomes durable
on the backend unit and then changes memory and is announced; listeners may call the domain
again, close it, or throw.

## Main definitions

* `Storage.Call.job` — what a write decides when its turn comes.
* `Storage.State`, `Storage.step` — the domain, its backend and its callers, one action at a
  time.
* `Storage.State.readable` — what the read methods return.
-/

namespace TianmaCoder

namespace Storage

/-- The codes of `DomainError` that an open domain and its facility produce. -/
inductive DomainErrorCode
  | alreadyOpen
  | missingKey
  | closed
deriving DecidableEq

structure DomainError where
  code : DomainErrorCode
  message : String
deriving DecidableEq

/-- Values that code outside the domain throws. `String(value)` may throw in turn, for an
object without a usable `toString`. -/
class Thrown (ε : Type) where
  text : ε → Option String

/-- Why a promise of the domain rejects. -/
inductive Failure (ε : Type)
  | domain (error : DomainError)
  | thrown (value : ε)
  | unprintable
deriving DecidableEq

/-- The tables and the global of a domain; no global when the spec declares none. -/
structure Contents (ν : Type) where
  tables : OrderedMap String (OrderedMap String ν)
  global : Option ν
deriving DecidableEq

/-- One write on the backend unit. -/
inductive Write (ν : Type)
  | putRecord (table key : String) (value : ν)
  | deleteRecord (table key : String)
  | setGlobal (value : ν)
deriving DecidableEq

namespace Contents

variable {ν : Type}

def records (c : Contents ν) (table : String) : OrderedMap String ν :=
  (c.tables.lookup table).getD []

def find (c : Contents ν) (table key : String) : Option ν := (c.records table).lookup key

/-- The change a write makes to memory. -/
def apply (c : Contents ν) : Write ν → Contents ν
  | .putRecord table key value =>
    { c with tables := c.tables.set table ((c.records table).set key value) }
  | .deleteRecord table key =>
    { c with tables := c.tables.set table (OrderedMap.delete key (c.records table)) }
  | .setGlobal value => { c with global := some value }

def applyAll (c : Contents ν) (writes : List (Write ν)) : Contents ν := writes.foldl apply c

variable (c : Contents ν)

@[simp] theorem applyAll_nil : c.applyAll [] = c := rfl

theorem applyAll_concat (writes : List (Write ν)) (w : Write ν) :
    c.applyAll (writes ++ [w]) = (c.applyAll writes).apply w := by
  simp [applyAll]

theorem records_set (table t : String) (r : OrderedMap String ν) :
    ({ c with tables := c.tables.set table r } : Contents ν).records t =
      if t = table then r else c.records t := by
  unfold records
  rw [OrderedMap.lookup_set]
  by_cases h : t = table
  · simp [h]
  · simp [h]

theorem find_putRecord (table key : String) (value : ν) (t k : String) :
    (c.apply (.putRecord table key value)).find t k =
      if t = table ∧ k = key then some value else c.find t k := by
  unfold find apply
  rw [records_set]
  by_cases ht : t = table
  · subst t
    simp [OrderedMap.lookup_set]
  · simp [ht]

theorem find_deleteRecord (table key t k : String) :
    (c.apply (.deleteRecord table key)).find t k =
      if t = table ∧ k = key then none else c.find t k := by
  unfold find apply
  rw [records_set]
  by_cases ht : t = table
  · subst t
    simp [OrderedMap.lookup_delete]
  · simp [ht]

end Contents

/-- What the backend unit would load; a global that was never written reads as nothing. -/
structure Medium (ν : Type) where
  record : String → String → Option ν
  global : Option ν

namespace Medium

variable {ν : Type}

def apply (m : Medium ν) : Write ν → Medium ν
  | .putRecord table key value =>
    { m with record := fun t k => if t = table ∧ k = key then some value else m.record t k }
  | .deleteRecord table key =>
    { m with record := fun t k => if t = table ∧ k = key then none else m.record t k }
  | .setGlobal value => { m with global := some value }

/-- The medium holds what memory holds, up to a global that still has its first value. -/
structure Holds (m : Medium ν) (c : Contents ν) (initial : Option ν) : Prop where
  record : ∀ table key, m.record table key = c.find table key
  global : c.global = m.global.or initial

theorem Holds.apply {m : Medium ν} {c : Contents ν} {initial : Option ν}
    (h : m.Holds c initial) (w : Write ν) : (m.apply w).Holds (c.apply w) initial := by
  cases w with
  | putRecord table key value =>
    refine ⟨fun t k => ?_, h.global⟩
    rw [Contents.find_putRecord, ← h.record]
    rfl
  | deleteRecord table key =>
    refine ⟨fun t k => ?_, h.global⟩
    rw [Contents.find_deleteRecord, ← h.record]
    rfl
  | setGlobal value => exact ⟨h.record, rfl⟩

end Medium

/-- What `loadAll` leaves the facility with when it constructs the domain. -/
structure Opening (ν : Type) where
  name : String
  contents : Contents ν
  medium : Medium ν
  loaded : medium.Holds contents contents.global

inductive Operation (ν : Type)
  | put (value : ν)
  | deleted
deriving DecidableEq

/-- A `domain/changed` event; the table and the key are empty for the global. -/
structure DomainChanged (ν : Type) where
  domain : String
  table : String
  key : String
  operation : Operation ν
deriving DecidableEq

namespace Write

variable {ν : Type}

def change (name : String) : Write ν → DomainChanged ν
  | .putRecord table key value => ⟨name, table, key, .put value⟩
  | .deleteRecord table key => ⟨name, table, key, .deleted⟩
  | .setGlobal value => ⟨name, "", "", .put value⟩

/-- Memory shows the value the write's event carries. -/
def VisibleIn (c : Contents ν) : Write ν → Prop
  | .putRecord table key value => c.find table key = some value
  | .deleteRecord table key => c.find table key = none
  | .setGlobal value => c.global = some value

theorem visibleIn_apply (c : Contents ν) (w : Write ν) : w.VisibleIn (c.apply w) := by
  cases w with
  | putRecord table key value => simp [VisibleIn, Contents.find_putRecord]
  | deleteRecord table key => simp [VisibleIn, Contents.find_deleteRecord]
  | setGlobal value => rfl

end Write

/-- What a write call fulfils with. -/
inductive Result (ν : Type)
  | done
  | existed (existed : Bool)
  | record (value : ν)
deriving DecidableEq

/-- A call of a write method, with the transform `update` was given. -/
inductive Call (ν ε : Type)
  | put (table key : String) (value : ν)
  | delete (table key : String)
  | update (table key : String) (fn : ν → Except ε ν)
  | set (value : ν)

def closedError (name : String) : DomainError :=
  ⟨.closed, "domain '" ++ name ++ "' is closed"⟩

def missingKey (name table key : String) : DomainError :=
  ⟨.missingKey, "domain '" ++ name ++ "' table '" ++ table ++ "' has no record '" ++ key ++
    "' to update"⟩

def alreadyOpen (name : String) : DomainError :=
  ⟨.alreadyOpen, "domain '" ++ name ++ "' is already open"⟩

namespace Call

variable {ν ε : Type}

/-- The handle the call goes through exists: resolving an undeclared table or global throws
before any call is made. -/
def declared (c : Contents ν) : Call ν ε → Bool
  | .put table _ _ | .delete table _ | .update table _ _ => (c.tables.lookup table).isSome
  | .set _ => c.global.isSome

/-- A job up to its write: existence is decided, and `update` runs its transform, at the
job's turn on the chain. -/
def job (name : String) (memory : Contents ν) :
    Call ν ε → Except (Failure ε) (Option (Write ν) × Result ν)
  | .put table key value => .ok (some (.putRecord table key value), .done)
  | .delete table key =>
    if (memory.find table key).isSome then
      .ok (some (.deleteRecord table key), .existed true)
    else .ok (none, .existed false)
  | .update table key fn =>
    match memory.find table key with
    | none => .error (.domain (missingKey name table key))
    | some current =>
      match fn current with
      | .ok next => .ok (some (.putRecord table key next), .record next)
      | .error e => .error (.thrown e)
  | .set value => .ok (some (.setGlobal value), .done)

end Call

/-- A job that waits for its backend write, and whether the write has landed. -/
structure Job (ν : Type) where
  id : ℕ
  write : Write ν
  result : Result ν
  landed : Bool

/-- A teardown under way: the link it waits for and the number of calls made before it. -/
structure Disposal where
  awaited : Option ℕ
  since : ℕ

inductive UnitState
  | opened
  | closing
  | closed
deriving DecidableEq

/-- The domain, its backend unit and what its callers have seen. Calls are numbered in the
order they were made. -/
structure State (ν ε : Type) where
  name : String
  memory : Contents ν
  medium : Medium ν
  chain : List (ℕ × Call ν ε)
  running : Option (Job ν)
  tail : Option ℕ
  disposal : Option Disposal
  unit : UnitState
  reserved : Bool
  requests : List (Call ν ε)
  settled : List (ℕ × Except (Failure ε) (Result ν))
  landed : List (ℕ × Write ν)
  events : List (DomainChanged ν × Contents ν)
  warnings : List String
  openings : List (Except DomainError Unit)

/-- A call on the domain: a write, or `close`. -/
inductive Request (ν ε : Type)
  | write (call : Call ν ε)
  | close

/-- What the listeners of one event do: the calls they make and what they throw. -/
structure Heard (ν ε : Type) where
  calls : List (Request ν ε)
  thrown : Option ε

inductive Action (ν ε : Type)
  | request (r : Request ν ε)
  /-- The chain reaches its next job. -/
  | start
  /-- The backend makes the write durable. -/
  | land
  /-- The backend rejects the write without effect. -/
  | reject (e : ε)
  /-- The job continues after its durable write. -/
  | resume (heard : Heard ν ε)
  /-- The teardown has drained the chain and closes the unit. -/
  | release
  /-- Closing the unit fulfils. -/
  | unitClosed
  /-- The facility is asked to open the same name. -/
  | reopen

/-- A domain as `open` returns it. -/
def Opening.domain {ν : Type} (ε : Type) (o : Opening ν) : State ν ε where
  name := o.name
  memory := o.contents
  medium := o.medium
  chain := []
  running := none
  tail := none
  disposal := none
  unit := .opened
  reserved := true
  requests := []
  settled := []
  landed := []
  events := []
  warnings := []
  openings := []

namespace State

variable {ν ε : Type}

def settle (s : State ν ε) (id : ℕ) (r : Except (Failure ε) (Result ν)) : State ν ε :=
  { s with settled := s.settled ++ [(id, r)] }

/-- Queue a call on the chain, or refuse it once the teardown has begun. -/
def enqueue (s : State ν ε) (c : Call ν ε) : State ν ε :=
  if s.disposal.isSome then
    { s with requests := s.requests ++ [c] }.settle s.requests.length
      (.error (.domain (closedError s.name)))
  else
    { s with
      requests := s.requests ++ [c]
      chain := s.chain ++ [(s.requests.length, c)]
      tail := some s.requests.length }

/-- `close`: repeated calls share one teardown. -/
def close (s : State ν ε) : State ν ε :=
  if s.disposal.isSome then s
  else { s with disposal := some ⟨s.tail, s.requests.length⟩ }

def request (s : State ν ε) : Request ν ε → Option (State ν ε)
  | .write c => if c.declared s.memory then some (s.enqueue c) else none
  | .close => some s.close

/-- The part of a job before its write. -/
def start (s : State ν ε) (id : ℕ) (c : Call ν ε) : State ν ε :=
  match c.job s.name s.memory with
  | .error e => s.settle id (.error e)
  | .ok (none, r) => s.settle id (.ok r)
  | .ok (some w, r) => { s with running := some ⟨id, w, r, false⟩ }

/-- The durable write reaches memory and is announced. -/
def commit (s : State ν ε) (j : Job ν) : State ν ε :=
  { s with
    running := none
    memory := s.memory.apply j.write
    landed := s.landed ++ [(j.id, j.write)]
    events := s.events ++ [(j.write.change s.name, s.memory.apply j.write)] }

variable [Thrown ε]

/-- How a job settles after its event. What a listener throws is logged, and formatting the
log text may throw in turn. -/
def settleHeard (s : State ν ε) (j : Job ν) : Option ε → State ν ε
  | none => s.settle j.id (.ok j.result)
  | some e =>
    match Thrown.text e with
    | some text =>
      { s with
        warnings := s.warnings ++
          ["domain '" ++ s.name ++ "': domain/changed listener failed: " ++ text] }.settle
        j.id (.ok j.result)
    | none => s.settle j.id (.error .unprintable)

/-- The awaited link of the chain has settled. -/
def drained (s : State ν ε) (d : Disposal) : Bool :=
  d.awaited.all fun id => id ∈ s.settled.map Prod.fst

end State

/-- One action of the domain, its backend or its callers, where it can happen. -/
def step {ν ε : Type} [Thrown ε] (s : State ν ε) : Action ν ε → Option (State ν ε)
  | .request r => s.request r
  | .start =>
    match s.running, s.chain with
    | none, (id, c) :: rest => some ({ s with chain := rest }.start id c)
    | _, _ => none
  | .land =>
    match s.running with
    | some j =>
      if j.landed then none
      else some { s with medium := s.medium.apply j.write, running := some { j with landed := true } }
    | none => none
  | .reject e =>
    match s.running with
    | some j =>
      if j.landed then none else some ({ s with running := none }.settle j.id (.error (.thrown e)))
    | none => none
  | .resume heard =>
    match s.running with
    | some j =>
      if j.landed then
        (heard.calls.foldlM State.request (s.commit j)).map fun t => t.settleHeard j heard.thrown
      else none
    | none => none
  | .release =>
    match s.disposal with
    | some d => if s.unit = .opened ∧ s.drained d then some { s with unit := .closing } else none
    | none => none
  | .unitClosed =>
    if s.unit = .closing then some { s with unit := .closed, reserved := false } else none
  | .reopen =>
    if s.reserved then some { s with openings := s.openings ++ [.error (alreadyOpen s.name)] }
    else some { s with openings := s.openings ++ [.ok ()], reserved := true }

namespace State

variable {ν ε : Type}

/-- Reads throw once the domain has fully closed. -/
def readable {α : Type} (s : State ν ε) (value : α) : Except DomainError α :=
  if s.unit = .closed then .error (closedError s.name) else .ok value

def get (s : State ν ε) (table key : String) : Except DomainError (Option ν) :=
  s.readable (s.memory.find table key)

def entries (s : State ν ε) (table : String) : Except DomainError (List (String × ν)) :=
  s.readable (s.memory.records table)

def keys (s : State ν ε) (table : String) : Except DomainError (List String) :=
  s.readable (OrderedMap.keys (s.memory.records table))

def size (s : State ν ε) (table : String) : Except DomainError ℕ :=
  s.readable (s.memory.records table).length

def getGlobal (s : State ν ε) : Except DomainError (Option ν) := s.readable s.memory.global

end State

end Storage

end TianmaCoder
