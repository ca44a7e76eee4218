import TianmaCoder.Lib.Transition
import TianmaCoder.Session.Event

/-!
# A JSONL write handle

The log handle of one session: live events buffer in a bounded window and drain through the
promise chain that also carries explicit appends and flushes. Every promise continuation is
an action of its own, so a run is any order in which the calls, the timer, the storage
primitives and the continuations can take their turns.

A file is a list of lines. A storage primitive that settles has either done its work or
left the file as it was.

## Main definitions

* `JsonlSessionHandle` — the handle, the file behind it and the callers waiting on it.
* `JsonlSessionHandle.step` — one call, timer, settled primitive or continuation.
* `StoredLog`, `HandleOrigin` — how a handle comes to be.
-/

namespace TianmaCoder

/-- One line of a stored log. -/
inductive StoredLine where
  | header (inheritedEventCount : ℕ)
  | event (event : SessionEvent)
  /-- Bytes of an append that never resolved. -/
  | torn (bytes : List UInt8)
  deriving DecidableEq

/-- The event a line holds. -/
def StoredLine.event? : StoredLine → Option SessionEvent
  | .header _ => none
  | .event e => some e
  | .torn _ => none

/-- Mutable per-handle log state. -/
structure StorageHandleState where
  /-- The stored next-seq. -/
  cursor : ℕ
  /-- Whether the session has a durable artifact yet. -/
  materialized : Bool
  /-- Torn-tail truncation point. -/
  tornTruncateTo : Option ℕ
  /-- Complete events recovered from the torn final frame. -/
  recoveredTail : Option (List SessionEvent)
  /-- Exact fork-inherited prefix length stored with the log. -/
  inheritedEventCount : ℕ

/-- Which path carries a batch to storage. -/
inductive BatchOrigin where
  | live
  | append
  deriving DecidableEq

/-- The file, the cross-process lock, the handle's log state, and every batch event
persisted so far. -/
structure HandleStorage where
  file : List StoredLine
  lease : Bool
  state : StorageHandleState
  written : List (BatchOrigin × SessionEvent)

/-- Refuse a batch that does not contiguously continue the stored log. -/
def assertContiguous (events : List SessionEvent) (cursor : ℕ) : Bool :=
  decide (events.map SessionEvent.seq = List.range' cursor events.length)

namespace HandleStorage

/-- `materialize`: publish a new artifact, never over an existing one. -/
def materialize (s : HandleStorage) (events : List SessionEvent) : Option (List StoredLine) :=
  if s.file = [] then
    some (.header s.state.inheritedEventCount :: events.map .event)
  else none

/-- `persistBatch`: append to the artifact, or materialize it. -/
def persistBatch (s : HandleStorage) (events : List SessionEvent) : Option (List StoredLine) :=
  if s.state.materialized then some (s.file ++ events.map .event) else s.materialize events

/-- The events persisted for one path, in order. -/
def writtenBy (s : HandleStorage) (origin : BatchOrigin) : List SessionEvent :=
  (s.written.filter (·.1 = origin)).map (·.2)

/-- The event lines of the file. -/
def events (s : HandleStorage) : List SessionEvent := s.file.filterMap StoredLine.event?

end HandleStorage

/-- One operation on the chain. -/
inductive ChainedOp where
  /-- The turn `drainBuffered` awaits; it captures its batch when it starts. -/
  | drain
  | append (batch : List SessionEvent)
  /-- A flush, with the `session/flush` listener that awaits it, if any. -/
  | flush (listener : Option ℕ)
  deriving DecidableEq

/-- The body of a started turn. -/
inductive TurnBody where
  | persist (origin : BatchOrigin) (batch : List SessionEvent)
  | flush (listener : Option ℕ)
  deriving DecidableEq

/-- What a started turn awaits. -/
inductive Awaited where
  | acquireWriteLease
  | truncateTornTail
  | persistRecovered
  | persistBatch
  | persistHeader
  deriving DecidableEq

/-- The promise in `draining`. -/
inductive DrainPhase where
  /-- `drainBuffered` awaits its chained turn. -/
  | awaitsTurn
  /-- The turn fulfilled; the loop has yet to look at the buffer again. -/
  | turnFulfilled
  /-- `drainBuffered` settled; the continuation that clears `draining` has yet to run. -/
  | settled (ok : Bool)
  deriving DecidableEq

/-- Where a `session/flush` listener stands. -/
inductive ListenerPhase where
  | drainLive
  | drained
  | flush
  | fulfilled
  | rejected
  deriving DecidableEq

/-- A `session/flush` listener, with the number of events enqueued when it called
`drainLive`. -/
structure FlushListener where
  phase : ListenerPhase
  owed : ℕ

/-- The JSONL write handle. -/
structure JsonlSessionHandle where
  storage : HandleStorage
  /-- Routed live events awaiting their batching deadline. -/
  buffered : List SessionEvent
  batchTimer : Bool
  /-- Set when a drain failed. -/
  drainPaused : Bool
  draining : Option DrainPhase
  /-- Operations whose turn has not started. -/
  chain : List ChainedOp
  running : Option (TurnBody × Awaited)
  listeners : List FlushListener
  /-- Every event enqueued so far. -/
  enqueued : List SessionEvent

/-- A call, a timer, a settled storage primitive or a promise continuation. -/
inductive HandleAction where
  | enqueueLive (event : SessionEvent)
  | batchTimer
  | drainLive
  | sessionFlush
  | append (events : List SessionEvent)
  | flush
  | startTurn (aborted : Bool)
  | settle (ok : Bool)
  | drainResumes
  | drainSettles
  | listenerResumes (listener : ℕ)

namespace JsonlSessionHandle

variable (h : JsonlSessionHandle)

/-! ## Turns -/

/-- Settle the promise of a listener's flush. -/
def settleListener (listener : Option ℕ) (ok : Bool) : JsonlSessionHandle :=
  match listener with
  | none => h
  | some i =>
    { h with
      listeners := h.listeners.modify i fun l =>
        { l with phase := if ok then .fulfilled else .rejected } }

/-- End the running turn and settle its promise. A rejected drain puts its batch back ahead
of what was buffered meanwhile. -/
def settleTurn (body : TurnBody) (ok : Bool) : JsonlSessionHandle :=
  let h := { h with running := none }
  match body with
  | .persist .live batch =>
    if ok then { h with draining := some .turnFulfilled }
    else
      { h with
        buffered := batch ++ h.buffered
        drainPaused := true
        draining := some (.settled false) }
  | .persist .append _ => h
  | .flush listener => h.settleListener listener ok

/-- Await one storage primitive. -/
def await (body : TurnBody) (primitive : Awaited) : JsonlSessionHandle :=
  { h with running := some (body, primitive) }

def setStorage (storage : HandleStorage) : JsonlSessionHandle := { h with storage }

/-- Rewrite the recovered events, if any, before the batch. -/
def rewriteRecovered (body : TurnBody) : JsonlSessionHandle :=
  match h.storage.state.recoveredTail with
  | none => h.await body .persistBatch
  | some [] =>
    let state := { h.storage.state with recoveredTail := none }
    (h.setStorage { h.storage with state }).await body .persistBatch
  | some (_ :: _) => h.await body .persistRecovered

/-- What a turn does once the lease is held. -/
def withLease (body : TurnBody) : JsonlSessionHandle :=
  match body with
  | .flush _ => h.await body .persistHeader
  | .persist _ batch =>
    if assertContiguous batch h.storage.state.cursor then
      match h.storage.state.tornTruncateTo with
      | some _ => h.await body .truncateTornTail
      | none => h.rewriteRecovered body
    else h.settleTurn body false

/-- The body of `persistContiguous` up to its first `await`. -/
def persistContiguous (origin : BatchOrigin) (batch : List SessionEvent) : JsonlSessionHandle :=
  if batch = [] then h.settleTurn (.persist origin batch) true
  else h.await (.persist origin batch) .acquireWriteLease

/-- Start one chained operation. An abort signal reaches explicit appends and flushes only. -/
def startOp (op : ChainedOp) (aborted : Bool) : Option JsonlSessionHandle :=
  match op with
  | .drain =>
    if aborted then none
    else some ({ h with buffered := [] }.persistContiguous .live h.buffered)
  | .append batch =>
    if aborted then some (h.settleTurn (.persist .append batch) false)
    else some (h.persistContiguous .append batch)
  | .flush listener =>
    if aborted then
      if listener.isSome then none else some (h.settleTurn (.flush listener) false)
    else if h.storage.state.materialized then some (h.settleTurn (.flush listener) true)
    else some (h.await (.flush listener) .acquireWriteLease)

/-- The awaited primitive did its work. A held lease is not acquired again. -/
def primitiveDone (body : TurnBody) : Awaited → Option JsonlSessionHandle
  | .acquireWriteLease =>
    some ((h.setStorage { h.storage with lease := true }).withLease body)
  | .truncateTornTail =>
    h.storage.state.tornTruncateTo.map fun offset =>
      let state := { h.storage.state with tornTruncateTo := none }
      let file := h.storage.file.take offset
      (h.setStorage { h.storage with file, state }).rewriteRecovered body
  | .persistRecovered =>
    h.storage.state.recoveredTail.bind fun recovered =>
      (h.storage.persistBatch recovered).map fun file =>
        let state := { h.storage.state with recoveredTail := none }
        (h.setStorage { h.storage with file, state }).await body .persistBatch
  | .persistBatch =>
    match body with
    | .flush _ => none
    | .persist origin batch =>
      (h.storage.persistBatch batch).map fun file =>
        let state :=
          { h.storage.state with
            materialized := true
            cursor := h.storage.state.cursor + batch.length }
        let written := h.storage.written ++ batch.map (Prod.mk origin)
        (h.setStorage { h.storage with file, state, written }).settleTurn body true
  | .persistHeader =>
    match body with
    | .persist _ _ => none
    | .flush _ =>
      (h.storage.materialize []).map fun file =>
        let state := { h.storage.state with materialized := true }
        (h.setStorage { h.storage with file, state }).settleTurn body true

/-- The awaited primitive settles. -/
def settlePrimitive (body : TurnBody) (primitive : Awaited) (ok : Bool) :
    Option JsonlSessionHandle :=
  if ok then h.primitiveDone body primitive
  else if primitive = .acquireWriteLease ∧ h.storage.lease then none
  else some (h.settleTurn body false)

/-! ## The live drain -/

/-- The guard of the drain loop: chain another turn while events are buffered. -/
def drainLoop : JsonlSessionHandle :=
  if h.buffered = [] then { h with draining := some (.settled true) }
  else { h with draining := some .awaitsTurn, chain := h.chain ++ [.drain] }

def drainBuffered : JsonlSessionHandle :=
  { h with batchTimer := false, drainPaused := false }.drainLoop

/-- Drain the live buffer, or join the drain in flight. -/
def drainLive : JsonlSessionHandle :=
  match h.draining with
  | some _ => h
  | none => h.drainBuffered

/-- Buffer one published live event and arm the batching window when it is idle. -/
def enqueueLive (event : SessionEvent) : JsonlSessionHandle :=
  let h := { h with buffered := h.buffered ++ [event], enqueued := h.enqueued ++ [event] }
  if h.batchTimer || h.drainPaused then h else { h with batchTimer := true }

/-- The continuation of a settled drain: clear `draining` and settle the callers that
joined it. -/
def drainSettles (ok : Bool) : JsonlSessionHandle :=
  { h with
    draining := none
    listeners := h.listeners.map fun l =>
      if l.phase = .drainLive then { l with phase := if ok then .drained else .rejected }
      else l }

/-- A listener whose drain fulfilled goes on to `flush()`. -/
def listenerResumes (i : ℕ) : JsonlSessionHandle :=
  { h with
    listeners := h.listeners.modify i fun l => { l with phase := .flush }
    chain := h.chain ++ [.flush (some i)] }

/-- One action. -/
def step : HandleAction → Option JsonlSessionHandle
  | .enqueueLive event => some (h.enqueueLive event)
  | .batchTimer => if h.batchTimer then some { h with batchTimer := false }.drainLive else none
  | .drainLive => some h.drainLive
  | .sessionFlush =>
    some { h.drainLive with
      listeners := h.listeners ++ [{ phase := .drainLive, owed := h.enqueued.length }] }
  | .append events => some { h with chain := h.chain ++ [.append events] }
  | .flush => some { h with chain := h.chain ++ [.flush none] }
  | .startTurn aborted =>
    match h.running, h.chain with
    | none, op :: chain => { h with chain }.startOp op aborted
    | _, _ => none
  | .settle ok =>
    match h.running with
    | some (body, primitive) => h.settlePrimitive body primitive ok
    | none => none
  | .drainResumes => if h.draining = some .turnFulfilled then some h.drainLoop else none
  | .drainSettles =>
    match h.draining with
    | some (.settled ok) => some (h.drainSettles ok)
    | _ => none
  | .listenerResumes i =>
    if (h.listeners[i]?).any (·.phase = .drained) then some (h.listenerResumes i) else none

/-! ## Opening -/

/-- A handle before any call. -/
def idle (storage : HandleStorage) : JsonlSessionHandle where
  storage := storage
  buffered := []
  batchTimer := false
  drainPaused := false
  draining := none
  chain := []
  running := none
  listeners := []
  enqueued := []

/-- The handle of a created session: no artifact and no lock yet. -/
def create (inheritedEventCount : ℕ) : JsonlSessionHandle :=
  idle
    { file := []
      lease := false
      written := []
      state :=
        { cursor := 0
          materialized := false
          tornTruncateTo := none
          recoveredTail := none
          inheritedEventCount } }

end JsonlSessionHandle

/-- A stored log as a write open finds it: the committed events, the bytes after them, and
the complete events recovered from those bytes. -/
structure StoredLog where
  inheritedEventCount : ℕ
  committed : List SessionEvent
  tornBytes : List UInt8
  recoveredTail : List SessionEvent
  /-- The decoder admits contiguous logs only. -/
  contiguous : assertContiguous (committed ++ recoveredTail) 0

namespace StoredLog

/-- The offset after the committed bytes, where bytes follow. -/
def tornTruncateTo (log : StoredLog) : Option ℕ :=
  if log.tornBytes = [] then none else some (log.committed.length + 1)

/-- The lines after the committed ones. -/
def tornTail (log : StoredLog) : List StoredLine :=
  if log.tornBytes = [] then [] else [.torn log.tornBytes]

end StoredLog

/-- The handle of a write open. -/
def JsonlSessionHandle.openWrite (log : StoredLog) : JsonlSessionHandle :=
  idle
    { file :=
        .header log.inheritedEventCount :: log.committed.map .event ++ log.tornTail
      lease := true
      written := []
      state :=
        { cursor := (log.committed ++ log.recoveredTail).length
          materialized := true
          tornTruncateTo := log.tornTruncateTo
          recoveredTail := some log.recoveredTail
          inheritedEventCount := log.inheritedEventCount } }

/-- How a write handle comes to be. -/
inductive HandleOrigin where
  | created (inheritedEventCount : ℕ)
  | opened (log : StoredLog)

/-- The handle of an origin, before any call. -/
def HandleOrigin.handle : HandleOrigin → JsonlSessionHandle
  | .created inheritedEventCount => .create inheritedEventCount
  | .opened log => .openWrite log

end TianmaCoder
