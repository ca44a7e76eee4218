import TianmaCoder.Lib.Number
import TianmaCoder.Lib.Json

/-!
# The durable inbox of an agent

Pending input stands in two lists. Every mutation appends one normalised splice event to the
session log; the inbox projection folds these events, and the facade reads the lists from the
cell that the projection registry keeps. Claims and removals are announced per message.

What the session does with an event that is otherwise well formed is the caller's: it may
refuse the event, and its observers may drop the projection's registration.

## Main definitions

* `inboxProjection` — the fold of the splice events.
* `InboxWorld` — the log, the registry cell and the announcements made so far.
* `mutate`, `claim`, `clear`, `splice` — the facade.
-/

namespace TianmaCoder

namespace Inbox

/-- An error with the text of its cause. -/
structure Failure where
  message : String
  cause : Option String
  deriving DecidableEq

structure UserMessage where
  id : String
  body : Json
  deriving DecidableEq

/-- The pending list an operation works on. -/
inductive InboxTarget where
  | nextTurn
  | nextStep
  deriving DecidableEq

/-- Prompts awaiting a turn each, and input awaiting the next step boundary. -/
structure InboxState where
  nextTurn : List UserMessage
  nextStep : List UserMessage
  deriving DecidableEq

namespace InboxState

def list (state : InboxState) : InboxTarget → List UserMessage
  | .nextTurn => state.nextTurn
  | .nextStep => state.nextStep

def setList (state : InboxState) (target : InboxTarget) (messages : List UserMessage) :
    InboxState :=
  match target with
  | .nextTurn => { state with nextTurn := messages }
  | .nextStep => { state with nextStep := messages }

/-- Every pending message, the queued turns first. -/
def pending (state : InboxState) : List UserMessage := state.nextTurn ++ state.nextStep

end InboxState

/-- The data of an `agent/inbox/spliced` event. -/
structure InboxSplice where
  target : InboxTarget
  start : Number
  removedCount : Option Number
  inserted : List UserMessage
  /-- `outcome: 'canceled'`. -/
  canceled : Bool
  deriving DecidableEq

/-- A logged event; the data of the other types do not matter here. -/
structure LogEvent where
  seq : ℕ
  spliced : Option InboxSplice
  deriving DecidableEq

/-- The first message whose identity has been seen before it. -/
def repeated (seen : List String) : List UserMessage → Option UserMessage
  | [] => none
  | message :: messages =>
    if message.id ∈ seen then some message else repeated (message.id :: seen) messages

/-- Refuse lists that hold an identity twice. -/
def checkPending (state : InboxState) : Except String Unit :=
  match repeated [] state.pending with
  | some message => throw s!"message \"{message.id}\" is already pending"
  | none => pure ()

/-! ## The projection -/

/-- Replay one splice on the lists. -/
def applySplice (state : InboxState) (splice : InboxSplice) : Except String InboxState :=
  let inbox := state.list splice.target
  let removedCount := splice.removedCount.getD (.ofNat 0)
  if !splice.start.isSafeInteger || splice.start.lt (.ofNat 0) ||
      (Number.ofNat inbox.length).lt splice.start ||
      !removedCount.isSafeInteger || removedCount.lt (.ofNat 0) ||
      (Number.ofNat inbox.length).lt (splice.start.add removedCount) then
    throw "invalid inbox splice"
  else do
    let next ← Number.toSpliced inbox splice.start removedCount splice.inserted
    checkPending (state.setList splice.target next)
    pure (state.setList splice.target next)

/-- The projection step of one event. -/
def apply (state : InboxState) (event : LogEvent) : Except Failure InboxState :=
  match event.spliced with
  | none => pure state
  | some splice =>
    match applySplice state splice with
    | .ok next => pure next
    | .error cause => throw ⟨s!"invalid persisted inbox splice at session seq {event.seq}", cause⟩

def init : InboxState := ⟨[], []⟩

/-- The fold of a whole log. -/
def fold (log : List LogEvent) : Except Failure InboxState := log.foldlM apply init

/-! ## The session and the registry -/

/-- A live notification of the agent. -/
inductive Notification where
  | inserted (message : UserMessage)
  | discarded (message : UserMessage)
  | claimed (message : UserMessage) (turn : ℕ)
  deriving DecidableEq

/-- What becomes of an append that the session has no objection to: it is refused, or it is
published and its observers leave the projection registered or not. -/
inductive Verdict where
  | refuse (message : String)
  | publish (registered : Bool)
  deriving DecidableEq

structure InboxWorld where
  sessionId : String
  log : List LogEvent
  /-- Whether the projection is registered; its cell is the fold of the `observed` first events. -/
  registered : Bool
  cell : InboxState
  observed : ℕ
  /-- The notifications emitted so far. -/
  emitted : List Notification
  deriving DecidableEq

namespace InboxWorld

/-- Pass the events the cell has not seen through the projection. -/
def materialize (w : InboxWorld) : Except Failure InboxWorld := do
  let cell ← (w.log.drop w.observed).foldlM apply w.cell
  pure { w with cell := cell, observed := w.log.length }

/-- The registry's listener; a step that throws leaves the cell behind. -/
def drive (w : InboxWorld) : InboxWorld :=
  match w.materialize with
  | .ok w' => w'
  | .error _ => w

/-- Drop the registration of the projection and its cells. -/
def unregister (w : InboxWorld) : InboxWorld := { w with registered := false }

/-- Register the projection, with no cell yet. -/
def register (w : InboxWorld) : InboxWorld :=
  if w.registered then w else { w with registered := true, cell := init, observed := 0 }

/-- The event is logged and published. -/
def commit (w : InboxWorld) (data : Option InboxSplice) : InboxWorld :=
  { w with log := w.log ++ [⟨w.log.length, data⟩] }

/-- A splice whose start is the negative zero is not lossless JSON. -/
def appendSplice (w : InboxWorld) (verdict : Verdict) (data : InboxSplice) :
    InboxWorld × Except Failure InboxSplice :=
  if data.start = .negZero then
    (w, throw ⟨"session event \"agent/inbox/spliced\" carries non-JSON-serializable data", none⟩)
  else
    match verdict with
    | .refuse message => (w, throw ⟨message, none⟩)
    | .publish registered =>
      let driven := (w.commit data).drive
      (if registered then driven else driven.unregister, pure data)

/-- Somebody logs an event of another type. -/
def appendOther (w : InboxWorld) : InboxWorld :=
  if w.registered then (w.commit none).drive else w.commit none

def emit (w : InboxWorld) (notes : List Notification) : InboxWorld :=
  { w with emitted := w.emitted ++ notes }

/-! ## The facade -/

/-- Read the current durable projection state. -/
def current (w : InboxWorld) : Except Failure InboxState :=
  if w.registered then do
    let w' ← w.materialize
    pure w'.cell
  else
    let id := w.sessionId
    throw ⟨s!"agent \"{id}\" cannot read inbox state: its projection registration is not active",
      none⟩

/-- Where a splice starts in a list of the given length. -/
def actualStart (length : ℕ) (start : Number) : Number :=
  let truncatedStart := start.trunc
  let offset := if truncatedStart.isNaN then .ofNat 0 else truncatedStart
  if offset.lt (.ofNat 0) then Number.max ((Number.ofNat length).add offset) (.ofNat 0)
  else Number.min offset (.ofNat length)

/-- How many messages the splice removes. -/
def actualDeleteCount (length : ℕ) (actualStart deleteCount : Number) : Number :=
  let truncatedDeleteCount := deleteCount.trunc
  Number.min
    (Number.max (if truncatedDeleteCount.isNaN then .ofNat 0 else truncatedDeleteCount) (.ofNat 0))
    ((Number.ofNat length).sub actualStart)

/-- The event of a mutation and the messages it removes, from the current lists. -/
def planSplice (state : InboxState) (target : InboxTarget) (start deleteCount : Number)
    (inserted : List UserMessage) (discardRemoved : Bool) :
    Except Failure (Option (InboxSplice × List UserMessage)) :=
  let inbox := state.list target
  let position := actualStart inbox.length start
  let count := actualDeleteCount inbox.length position deleteCount
  if count = .ofNat 0 ∧ inserted = [] then pure none
  else do
    let candidate ← (Number.toSpliced inbox position count inserted).mapError (⟨·, none⟩)
    (checkPending (state.setList target candidate)).mapError (⟨·, none⟩)
    pure (some
      (⟨target, position, if count = .ofNat 0 then none else some count, inserted,
        discardRemoved && count != .ofNat 0⟩, Number.slice inbox position (position.add count)))

/-- Commit one normalized mutation and publish its live events. -/
def mutate (w : InboxWorld) (verdict : Verdict) (target : InboxTarget) (start deleteCount : Number)
    (inserted : List UserMessage) (discardRemoved : Bool) :
    InboxWorld × Except Failure (List UserMessage) :=
  match w.current with
  | .error e => (w, .error e)
  | .ok state =>
    match planSplice state target start deleteCount inserted discardRemoved with
    | .error e => (w, .error e)
    | .ok none => (w, .ok [])
    | .ok (some (splice, removed)) =>
      match w.appendSplice verdict splice with
      | (w', .error e) => (w', .error e)
      | (w', .ok data) =>
        let discarded := if discardRemoved then removed.map .discarded else []
        (w'.emit (discarded ++ data.inserted.map .inserted), .ok removed)

/-- Apply standard splice semantics and durably record the normalized result. -/
def splice (w : InboxWorld) (verdict : Verdict) (target : InboxTarget)
    (start deleteCount : Number) (inserted : List UserMessage) :
    InboxWorld × Except Failure (List UserMessage) :=
  w.mutate verdict target start deleteCount inserted true

/-- Append one message to a pending list. -/
def append (w : InboxWorld) (verdict : Verdict) (target : InboxTarget) (message : UserMessage) :
    InboxWorld × Except Failure (List UserMessage) :=
  match w.current with
  | .error e => (w, .error e)
  | .ok state => w.splice verdict target (.ofNat (state.list target).length) (.ofNat 0) [message]

/-- Prepend one message to a pending list. -/
def prepend (w : InboxWorld) (verdict : Verdict) (target : InboxTarget) (message : UserMessage) :
    InboxWorld × Except Failure (List UserMessage) :=
  w.splice verdict target (.ofNat 0) (.ofNat 0) [message]

/-- Locate one pending identity across both owned lists. -/
def locate (state : InboxState) (messageId : String) : Option (InboxTarget × ℕ) :=
  match state.nextTurn.findIdx? fun message => message.id == messageId with
  | some index => some (.nextTurn, index)
  | none => (state.nextStep.findIdx? fun message => message.id == messageId).map (.nextStep, ·)

/-- Put `messages` in the place of one pending message; whether it was still pending. -/
def exchange (w : InboxWorld) (verdict : Verdict) (messageId : String)
    (messages : List UserMessage) : InboxWorld × Except Failure Bool :=
  match w.current with
  | .error e => (w, .error e)
  | .ok state =>
    match locate state messageId with
    | none => (w, .ok false)
    | some (target, index) =>
      match w.splice verdict target (.ofNat index) (.ofNat 1) messages with
      | (w', .error e) => (w', .error e)
      | (w', .ok _) => (w', .ok true)

/-- Replace one pending message in place. -/
def replace (w : InboxWorld) (verdict : Verdict) (messageId : String) (newMessage : UserMessage) :
    InboxWorld × Except Failure Bool :=
  w.exchange verdict messageId [newMessage]

/-- Remove one pending message. -/
def remove (w : InboxWorld) (verdict : Verdict) (messageId : String) :
    InboxWorld × Except Failure Bool :=
  w.exchange verdict messageId []

/-- Splice out a whole list. -/
def takeAll (w : InboxWorld) (verdict : Verdict) (target : InboxTarget) (discardRemoved : Bool) :
    InboxWorld × Except Failure (List UserMessage) :=
  match w.current with
  | .error e => (w, .error e)
  | .ok state =>
    w.mutate verdict target (.ofNat 0) (.ofNat (state.list target).length) [] discardRemoved

/-- Durably cancel all pending input, clearing next-step before next-turn. -/
def clear (w : InboxWorld) (verdict₁ verdict₂ : Verdict) : InboxWorld × Except Failure Unit :=
  match w.takeAll verdict₁ .nextStep true with
  | (w₁, .error e) => (w₁, .error e)
  | (w₁, .ok _) =>
    match w₁.takeAll verdict₂ .nextTurn true with
    | (w₂, .error e) => (w₂, .error e)
    | (w₂, .ok _) => (w₂, .ok ())

/-- Remove and return the complete batch proposed for one step. -/
def claim (w : InboxWorld) (verdict₁ verdict₂ : Verdict) (target : InboxTarget) (turn : ℕ) :
    InboxWorld × Except Failure (List UserMessage) :=
  match w.takeAll verdict₁ .nextStep false with
  | (w₁, .error e) => (w₁, .error e)
  | (w₁, .ok claimed) =>
    match target with
    | .nextStep => (w₁.emit (claimed.map (.claimed · turn)), .ok claimed)
    | .nextTurn =>
      match w₁.mutate verdict₂ .nextTurn (.ofNat 0) (.ofNat 1) [] false with
      | (w₂, .error e) => (w₂, .error e)
      | (w₂, .ok more) =>
        (w₂.emit ((claimed ++ more).map (.claimed · turn)), .ok (claimed ++ more))

end InboxWorld

/-! ## Runs -/

/-- A call of the facade with what becomes of its appends, or something else that happens to the
session or to the registration. -/
inductive Operation where
  | splice (verdict : Verdict) (target : InboxTarget) (start deleteCount : Number)
      (inserted : List UserMessage)
  | append (verdict : Verdict) (target : InboxTarget) (message : UserMessage)
  | prepend (verdict : Verdict) (target : InboxTarget) (message : UserMessage)
  | replace (verdict : Verdict) (messageId : String) (newMessage : UserMessage)
  | remove (verdict : Verdict) (messageId : String)
  | claim (verdict₁ verdict₂ : Verdict) (target : InboxTarget) (turn : ℕ)
  | clear (verdict₁ verdict₂ : Verdict)
  | other
  | unregister
  | register

namespace InboxWorld

/-- A call whose result holds no messages. -/
def silent {β : Type} (call : InboxWorld × Except Failure β) :
    InboxWorld × Except Failure (List UserMessage) :=
  (call.1, call.2.map fun _ => [])

/-- Perform one operation: the messages it returns, or the failure it throws. -/
def exec (w : InboxWorld) : Operation → InboxWorld × Except Failure (List UserMessage)
  | .splice verdict target start deleteCount inserted =>
    w.splice verdict target start deleteCount inserted
  | .append verdict target message => silent (w.append verdict target message)
  | .prepend verdict target message => silent (w.prepend verdict target message)
  | .replace verdict messageId newMessage => silent (w.replace verdict messageId newMessage)
  | .remove verdict messageId => silent (w.remove verdict messageId)
  | .claim verdict₁ verdict₂ target turn => w.claim verdict₁ verdict₂ target turn
  | .clear verdict₁ verdict₂ => silent (w.clear verdict₁ verdict₂)
  | .other => (w.appendOther, .ok [])
  | .unregister => (w.unregister, .ok [])
  | .register => (w.register, .ok [])

/-- The transition of a run. -/
def step (w : InboxWorld) (operation : Operation) : Option InboxWorld := some (w.exec operation).1

end InboxWorld

end Inbox

end TianmaCoder
