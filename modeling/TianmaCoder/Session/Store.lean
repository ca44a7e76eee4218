import TianmaCoder.Lib.FreshName
import TianmaCoder.Lib.Heap
import TianmaCoder.Session.Prepare
import TianmaCoder.Session.StorePhase

/-!
# The session store

The in-memory store of live sessions. A prepared session enters it, is announced, and leaves it
through the detach capability `enter` returned. Creation, appended events and disposal are
dispatched to listeners on the caller's stack, and a listener may call the store again, so the
state holds the dispatches in progress, innermost first. A detach that arrives while the entry
is being dispatched waits until the last of its dispatches unwinds.

A run is a sequence of moves: a call, made by a listener or by anyone else, the log push of the
innermost append, or the end of the innermost dispatch.

## Main definitions

* `SessionEntry`, `Dispatch`, `SessionStore` — the state, with the trace of what was dispatched.
* `SessionStore.prepare`, `enter`, `announce`, `append`, `detach`, `create`, `fork` — the calls.
* `SessionStore.publish`, `SessionStore.unwind` — the innermost dispatch goes on.
* `StoreMove`, `SessionStore.step` — one move.
-/

namespace TianmaCoder

/-- All mutable lifecycle state for one exact store entry. -/
structure SessionEntry where
  id : String
  session : ℕ
  announced : Bool := false
  announcing : Bool := false
  appending : Bool := false
  detachRequested : Bool := false
  /-- Whether the single-shot capability that `enter` returned is still unused. -/
  entered : Bool := true
  deriving DecidableEq, Repr

/-- A dispatch in progress. -/
inductive Dispatch where
  /-- `session/created`; `rollback` when the effect of `create` detaches the entry on a throw. -/
  | created (entry : ℕ) (rollback : Bool)
  /-- `session/event`; `pending` until its listeners are resolved and the event is pushed. -/
  | event (entry : ℕ) (pending : Option Ref)
  | disposed (entry : ℕ)
  deriving DecidableEq, Repr

namespace Dispatch

/-- The entry that is dispatched. -/
def entry : Dispatch → ℕ
  | created e _ => e
  | event e _ => e
  | disposed e => e

def isCreated (e : ℕ) : Dispatch → Bool
  | created entry _ => entry == e
  | _ => false

def isEvent (e : ℕ) : Dispatch → Bool
  | event entry _ => entry == e
  | _ => false

end Dispatch

/-- The store, the session objects built so far, and the dispatches in progress. -/
structure SessionStore where
  sessions : Heap SessionObject
  entries : Heap SessionEntry
  store : OrderedMap String ℕ
  attachments : OrderedMap ℕ ℕ
  counter : ℕ
  dispatches : List Dispatch
  /-- What was dispatched and removed so far, entry by entry. -/
  trace : List (ℕ × LifecycleEdge)

/-- The id a store mints. -/
def sessionName (n : ℕ) : String := s!"session-{n}"

namespace SessionStore

def empty : SessionStore := ⟨Heap.empty, Heap.empty, [], [], 0, [], []⟩

/-! ## Entries -/

def setEntry (s : SessionStore) (e : ℕ) (entry : SessionEntry) : SessionStore :=
  { s with entries := s.entries.write e entry }

def record (s : SessionStore) (e : ℕ) (edge : LifecycleEdge) : SessionStore :=
  { s with trace := s.trace ++ [(e, edge)] }

def beginDispatch (s : SessionStore) (dispatch : Dispatch) : SessionStore :=
  { s with dispatches := dispatch :: s.dispatches }

/-- Emit the paired teardown notification. -/
def emitDisposed (s : SessionStore) (e : ℕ) : SessionStore :=
  (s.record e .disposed).beginDispatch (.disposed e)

/-- Forget an entry in both maps. -/
def remove (s : SessionStore) (e : ℕ) (entry : SessionEntry) : SessionStore :=
  { s with
    store := OrderedMap.delete entry.id s.store
    attachments := OrderedMap.delete entry.session s.attachments }.record e .removed

/-- Remove one exact entered session and emit its paired disposal when announced. -/
def detachEntered (s : SessionStore) (e : ℕ) (entry : SessionEntry) : SessionStore :=
  let s := s.setEntry e { entry with detachRequested := false }
  if s.store.lookup entry.id ≠ some e then s
  else if entry.announced then (s.remove e entry).emitDisposed e
  else s.remove e entry

/-- The detach capability of entry `e`. -/
def detach (s : SessionStore) (e : ℕ) : SessionStore :=
  match s.entries.read e with
  | none => s
  | some entry =>
    if !entry.entered then s
    else
      let entry := { entry with entered := false }
      if entry.announcing || entry.appending then
        s.setEntry e { entry with detachRequested := true }
      else
        (s.setEntry e entry).detachEntered e entry

/-! ## Calls -/

/-- The id a session is prepared under, and the counter after it was chosen. -/
def chooseId (s : SessionStore) : Option String → ℕ × String
  | some id => (s.counter, id)
  | none =>
    let n := FreshName.firstUnused sessionName (OrderedMap.keys s.store) s.store.length
      (s.counter + 1)
    (n, sessionName n)

variable (projections : List SessionMessageProjection)

/-- Build a session without entering it into the store; the answer is the new object. -/
def prepare (s : SessionStore) (id : Option String) (options : PrepareSessionOptions) (now : ℤ) :
    SessionStore × Except String (ℕ × SessionObject) :=
  let (counter, sessionId) := s.chooseId id
  let s := { s with counter := counter }
  if (s.store.lookup sessionId).isSome then
    (s, .error s!"session \"{sessionId}\" already exists")
  else
    match options.build projections sessionId now with
    | .error message => (s, .error message)
    | .ok object =>
      let (session, sessions) := s.sessions.alloc object
      ({ s with sessions := sessions }, .ok (session, object))

/-- Enter a prepared session into the store; the answer is the entry its detach capability is
for. -/
def enter (s : SessionStore) (session : ℕ) (object : SessionObject) :
    SessionStore × Except String ℕ :=
  if (s.store.lookup object.id).isSome then
    (s, .error s!"session \"{object.id}\" already exists")
  else if (s.attachments.lookup session).isSome then
    (s, .error s!"session \"{object.id}\" is already attached to a store")
  else
    let (e, entries) := s.entries.alloc { id := object.id, session := session }
    ({ s with
      entries := entries
      store := OrderedMap.set object.id e s.store
      attachments := OrderedMap.set session e s.attachments }, .ok e)

/-- The entry a session is attached to. -/
def attached (s : SessionStore) (session : ℕ) : Option (ℕ × SessionEntry) :=
  (s.attachments.lookup session).bind fun e => (s.entries.read e).map fun entry => (e, entry)

/-- The exact live entry; detached and prepared objects are refused. -/
def liveEntryFor (s : SessionStore) (session : ℕ) (object : SessionObject) :
    Except String (ℕ × SessionEntry) :=
  match s.attached session with
  | none => .error s!"session \"{object.id}\" is not live in this store"
  | some (e, entry) =>
    if s.store.lookup entry.id ≠ some e then
      .error s!"session \"{object.id}\" is not live in this store"
    else .ok (e, entry)

/-- Begin the creation dispatch of an entry. -/
def beginCreated (s : SessionStore) (e : ℕ) (entry : SessionEntry) (rollback : Bool) :
    SessionStore :=
  ((s.setEntry e { entry with announced := true, announcing := true }).record e
    .created).beginDispatch (.created e rollback)

/-- Announce an entered session; its listeners run next. -/
def announce (s : SessionStore) (session : ℕ) (object : SessionObject) (rollback : Bool) :
    SessionStore × Except String Unit :=
  match s.liveEntryFor session object with
  | .error message => (s, .error message)
  | .ok (e, entry) =>
    if entry.announced || entry.announcing then
      (s, .error s!"session \"{entry.id}\" was already announced")
    else (s.beginCreated e entry rollback, .ok ())

def setSession (s : SessionStore) (session : ℕ) (object : SessionObject) (value : Session) :
    SessionStore :=
  { s with sessions := s.sessions.write session { object with session := value } }

/-- Begin the dispatch of an accepted event. -/
def beginEvent (s : SessionStore) (e : ℕ) (entry : SessionEntry) (event : Ref) : SessionStore :=
  ((s.setEntry e { entry with appending := true }).record e .event).beginDispatch
    (.event e (some event))

/-- Append one event. A session that is attached nowhere takes it at once; else the dispatch
begins and the event is pushed when its listeners are resolved. -/
def append (s : SessionStore) (session : ℕ) (object : SessionObject) (call : AppendCall) :
    SessionStore × Except String Unit :=
  match s.attached session with
  | none =>
    match object.session.accept projections call with
    | (value, .error message) => (s.setSession session object value, .error message)
    | (value, .ok ()) => (s.setSession session object value.pushLast, .ok ())
  | some (e, entry) =>
    if entry.appending then
      (s, .error "session append cannot reenter while another append is being published")
    else
      match object.session.accept projections call with
      | (value, .error message) => (s.setSession session object value, .error message)
      | (value, .ok ()) =>
        ((s.setSession session object value).beginEvent e entry (value.objects.length - 1),
          .ok ())

/-- Create a session: prepare it, enter it and announce it under an effect that detaches it when
the announcement throws. -/
def create (s : SessionStore) (id : Option String) (options : CreateSessionOptions) (now : ℤ) :
    SessionStore × Except String Unit :=
  match s.prepare projections id (.create options) now with
  | (s, .error message) => (s, .error message)
  | (s, .ok (session, object)) =>
    match s.enter session object with
    | (s, .error message) => (s, .error message)
    | (s, .ok _) => s.announce session object true

/-- Look up a live session. -/
def get (s : SessionStore) (id : String) : Option ℕ :=
  (s.store.lookup id).bind fun e => (s.entries.read e).map SessionEntry.session

/-- A fork source: the live session object or its live store id. -/
inductive ForkSource where
  | object (session : ℕ)
  | id (id : String)

/-- The live session a fork copies from, if the source object exists. -/
def resolveForkSource (s : SessionStore) : ForkSource → Option (Except String SessionObject)
  | .id id =>
    match s.get id with
    | none => some (.error s!"session \"{id}\" not found")
    | some live => (s.sessions.read live).map .ok
  | .object session =>
    (s.sessions.read session).map fun source =>
      match s.get source.id with
      | none => .error s!"session \"{source.id}\" not found"
      | some live =>
        if live ≠ session then .error s!"session \"{source.id}\" is not the live store instance"
        else .ok source

/-- The options a fork of the live source passes to `create`. -/
def forkOptions (source : SessionObject) (resolved : Option ℕ) : CreateSessionOptions where
  seed := some (match resolved with
    | none => []
    | some boundary => buildForkSeed source.session.events boundary)
  inheritedEventCount := some (match resolved with
    | none => 0
    | some boundary => boundary + 1)
  metadata :=
    { cwd := source.header.cwd, parentSession := some source.id, isSeeded := some true }

/-- Create a live child session from an exact prefix of a live source. -/
def fork (s : SessionStore) (source : ForkSource) (boundary : Option ℕ) (child : Option String)
    (now : ℤ) : Option (SessionStore × Except String Unit) :=
  match child.filter fun id => (s.get id).isSome with
  | some id => some (s, .error s!"session \"{id}\" already exists")
  | none =>
    (s.resolveForkSource source).map fun resolved =>
      match resolved with
      | .error message => (s, .error message)
      | .ok source =>
        match forkBoundary source.id source.session.events boundary with
        | .error message => (s, .error message)
        | .ok resolved => s.create projections child (forkOptions source resolved) now

/-! ## Dispatches -/

/-- Push the event of the innermost append, whose listeners are resolved. -/
def publish (s : SessionStore) : Option SessionStore :=
  match s.dispatches with
  | .event e (some event) :: rest => do
    let entry ← s.entries.read e
    let object ← s.sessions.read entry.session
    return { s.setSession entry.session object
      { object.session with log := object.session.log ++ [event] } with
      dispatches := .event e none :: rest }
  | _ => none

/-- The creation dispatch of an entry unwinds. -/
def endCreated (s : SessionStore) (e : ℕ) (entry : SessionEntry) (rest : List Dispatch) :
    SessionStore :=
  ({ s with dispatches := rest }.setEntry e { entry with announcing := false }).record e
    .createdUnwound

/-- An append dispatch of an entry unwinds. -/
def endEvent (s : SessionStore) (e : ℕ) (entry : SessionEntry) (rest : List Dispatch) :
    SessionStore :=
  ({ s with dispatches := rest }.setEntry e { entry with appending := false }).record e
    .eventUnwound

/-- The `finally` of `announce`. -/
def finishCreated (s : SessionStore) (e : ℕ) (entry : SessionEntry) (rest : List Dispatch) :
    SessionStore :=
  let s := s.endCreated e entry rest
  if entry.detachRequested && !entry.appending then
    s.detachEntered e { entry with announcing := false }
  else s

/-- The `finally` of `Session.append`. -/
def finishEvent (s : SessionStore) (e : ℕ) (entry : SessionEntry) (rest : List Dispatch) :
    SessionStore :=
  let s := s.endEvent e entry rest
  if entry.detachRequested && !entry.announcing then
    s.detachEntered e { entry with appending := false }
  else s

/-- The innermost dispatch unwinds, returning or throwing. -/
def unwind (s : SessionStore) (threw : Bool) : Option SessionStore :=
  match s.dispatches with
  | [] => none
  | .created e rollback :: rest =>
    (s.entries.read e).map fun entry =>
      let s := s.finishCreated e entry rest
      -- a detach requested from inside has used the capability: the rollback finds it spent
      if threw && rollback then s.detach e else s
  | .event e _ :: rest => (s.entries.read e).map fun entry => s.finishEvent e entry rest
  | .disposed _ :: rest => some { s with dispatches := rest }

end SessionStore

namespace SessionStore

open Checked

variable {projections : List SessionMessageProjection}

end SessionStore

/-- One move of a run. -/
inductive StoreMove where
  | prepare (id : Option String) (options : PrepareSessionOptions) (now : ℤ)
  | enter (session : ℕ)
  | announce (session : ℕ)
  | append (session : ℕ) (call : AppendCall)
  | detach (entry : ℕ)
  | create (id : Option String) (options : CreateSessionOptions) (now : ℤ)
  | fork (source : SessionStore.ForkSource) (boundary : Option ℕ) (child : Option String)
      (now : ℤ)
  | publish
  | unwind (threw : Bool)

/-- One move, if its session objects exist and the dispatch it speaks of is in progress. -/
def SessionStore.step (projections : List SessionMessageProjection) (s : SessionStore) :
    StoreMove → Option SessionStore
  | .prepare id options now => some (s.prepare projections id options now).1
  | .enter session => (s.sessions.read session).map fun object => (s.enter session object).1
  | .announce session =>
    (s.sessions.read session).map fun object => (s.announce session object false).1
  | .append session call =>
    (s.sessions.read session).map fun object => (s.append projections session object call).1
  | .detach e => some (s.detach e)
  | .create id options now => some (s.create projections id options now).1
  | .fork source boundary child now =>
    (s.fork projections source boundary child now).map Prod.fst
  | .publish => s.publish
  | .unwind threw => s.unwind threw

end TianmaCoder
