import TianmaCoder.Gateway.UplinkInbox
import TianmaCoder.Lib.Transition

/-!
# Multiplexed Remote streams

One WebSocket connection carries many logical streams. Each stream is pumped from its source to
the socket, reads its uplink from an inbox, and is settled once: the pump, the inbox and the
dispatcher of client frames all take part in that.

## Main definitions

* `Gateway.StreamMux.ActiveStream` — one logical stream and the turns of its pump.
* `Gateway.StreamMux.State`, `Gateway.StreamMux.step` — the connection, its clients, sources
  and readers, one action at a time.
-/

namespace TianmaCoder

namespace Gateway

namespace StreamMux

/-- Why a stream's controller is aborted. The opener aborts it with a Remote failure, or with
anything else to cancel the stream; the connection aborts it with a violation or a plain error. -/
inductive Reason (ρ : Type)
  | violation (v : Violation)
  | remote (failure : ρ)
  | host (message : String)
  | error (message : String)
deriving DecidableEq

/-- `remoteErrorOf` finds a Remote failure in the reason. -/
def Reason.isRemote {ρ : Type} : Reason ρ → Bool
  | .violation _ | .remote _ => true
  | .host _ | .error _ => false

/-- The opener aborted the stream, not the connection. -/
def Reason.byHost {ρ : Type} : Reason ρ → Bool
  | .remote _ | .host _ => true
  | .violation _ | .error _ => false

/-- What a downlink fails with. -/
inductive StreamError (ε ρ : Type)
  | source (e : ε)
  | reason (r : Reason ρ)
  | error (message : String)
deriving DecidableEq

inductive ServerMessage (υ φ : Type)
  | item (value : υ)
  | «end»
  | error (error : φ)
deriving DecidableEq

def ServerMessage.isTerminal {υ φ : Type} : ServerMessage υ φ → Bool
  | .item _ => false
  | _ => true

inductive ClientMessage (α : Type)
  | open (streamId endpoint : String)
  | item (streamId : String) (value : α) (frameBytes : ℕ)
  | «end» (streamId : String)
  | cancel (streamId : String)

/-- What the connection is constructed with: which items are JSON serializable, how failures
are mapped to the wire (nothing where that throws or yields no JSON), and the inbox limit. -/
structure Carrier (υ ε ρ φ : Type) where
  serializable : υ → Bool
  failure : StreamError ε ρ → Option φ
  streamInboxBytes : ℕ

/-- Where the pump of a stream stands. -/
inductive Pump (ε ρ : Type)
  /-- Waits for the opener. -/
  | opening
  /-- Waits for the next item of the source. -/
  | pulling
  /-- Waits for an item to be written. -/
  | sending
  /-- Waits for the source to return after an item could not be sent. -/
  | unwinding (e : StreamError ε ρ)
  /-- Waits for the end frame to be written. -/
  | ending
  /-- Waits for the error frame to be written. -/
  | failing
  | done
deriving DecidableEq

def Pump.isOpening {ε ρ : Type} : Pump ε ρ → Bool
  | .opening => true
  | _ => false

def Pump.isPulling {ε ρ : Type} : Pump ε ρ → Bool
  | .pulling => true
  | _ => false

def Pump.isDone {ε ρ : Type} : Pump ε ρ → Bool
  | .done => true
  | _ => false

/-- What a settled downlink tells its client. -/
inductive Verdict (ε ρ : Type)
  | ended
  | failed (e : StreamError ε ρ)
  | silent
deriving DecidableEq

def notSerializable : String := "api gateway: Remote stream item is not JSON serializable"

def socketIsClosed : String := "api gateway: Remote stream socket is closed"

/-- A logical stream; `listed` while the table of the connection holds it. It remembers the
items of its source, the messages it has handed to the socket and its verdict. -/
structure ActiveStream (α υ ε ρ φ : Type) where
  streamId : String
  inbox : UplinkInbox α
  abort : Option (Reason ρ)
  pump : Pump ε ρ
  listed : Bool
  yielded : List υ
  messages : List (ServerMessage υ φ)
  verdict : Option (Verdict ε ρ)
deriving DecidableEq

/-- What one turn of a pump does: the stream after it, the message it sends, and whether it
closes the socket. -/
structure Turn (α υ ε ρ φ : Type) where
  stream : ActiveStream α υ ε ρ φ
  message : Option (ServerMessage υ φ)
  closes : Bool

namespace ActiveStream

variable {α υ ε ρ φ : Type} (carrier : Carrier υ ε ρ φ) (st : ActiveStream α υ ε ρ φ)

/-- `abort.abort`: the first reason stays. -/
def abortWith (r : Reason ρ) : ActiveStream α υ ε ρ φ :=
  { st with abort := st.abort.or (some r) }

/-- Cancel the stream and end any read that waits on its uplink. -/
def stop (message : String) : ActiveStream α υ ε ρ φ :=
  { st.abortWith (.error message) with inbox := st.inbox.fail (.error message) }

/-- An uplink item; a violation aborts the stream. -/
def push (value : α) (frameBytes : ℕ) : ActiveStream α υ ε ρ φ :=
  match st.inbox.push value frameBytes with
  | (inbox, none) => { st with inbox := inbox }
  | (inbox, some v) => { st.abortWith (.violation v) with inbox := inbox }

def quiet : Turn α υ ε ρ φ := ⟨st, none, false⟩

/-- Hand a message to the socket and wait for it in `pump`. -/
def sends (message : ServerMessage υ φ) (pump : Pump ε ρ) : Turn α υ ε ρ φ :=
  ⟨{ st with messages := st.messages ++ [message], pump := pump }, some message, false⟩

/-- `sendFailure`. -/
def sendFailure (socketOpen : Bool) (e : StreamError ε ρ) : Turn α υ ε ρ φ :=
  if socketOpen then
    match carrier.failure e with
    | some wire => st.sends (.error wire) .failing
    | none => ⟨{ st with pump := .done }, none, true⟩
  else quiet { st with pump := .done }

/-- What is told when the downlink has settled: an abort decides before the source does. -/
def judge (outcome : Option (StreamError ε ρ)) : Verdict ε ρ :=
  match st.abort with
  | some r => if r.isRemote then .failed (.reason r) else .silent
  | none =>
    match outcome with
    | some e => .failed e
    | none => .ended

/-- The downlink has settled. -/
def settle (socketOpen : Bool) (outcome : Option (StreamError ε ρ)) : Turn α υ ε ρ φ :=
  let settled :=
    { st with
      inbox := st.inbox.fail (.error "Remote stream ended")
      verdict := some (st.judge outcome) }
  match st.judge outcome with
  | .silent => quiet { settled with pump := .done }
  | .failed e => settled.sendFailure carrier socketOpen e
  | .ended => settled.sends .end .ending

/-- The source yields an item. -/
def pull (value : υ) : Turn α υ ε ρ φ :=
  let pulled := { st with yielded := st.yielded ++ [value] }
  if carrier.serializable value then pulled.sends (.item value) .sending
  else quiet { pulled with pump := .unwinding (.error notSerializable) }

/-- The awaited message was written, or rejected because the socket is closed. -/
def delivered (socketOpen written : Bool) : Turn α υ ε ρ φ :=
  match st.pump, written with
  | .sending, true => quiet { st with pump := .pulling }
  | .sending, false => quiet { st with pump := .unwinding (.error socketIsClosed) }
  | .ending, true | .failing, true => quiet { st with pump := .done }
  | .ending, false => st.sendFailure carrier socketOpen (.error socketIsClosed)
  | .failing, false => ⟨{ st with pump := .done }, none, true⟩
  | _, _ => st.quiet

end ActiveStream

inductive Socket
  | opened
  | closing
  | closed
deriving DecidableEq

/-- What can be seen on the connection: streams that are opened and frames that are sent, with
the number of the stream. -/
inductive Event (υ φ : Type)
  | opened (index : ℕ) (streamId : String)
  | sent (index : ℕ) (streamId : String) (message : ServerMessage υ φ)
deriving DecidableEq

/-- The connection with every stream it has opened, in order. `writes` are the messages that
wait for the socket, `inflight` is the stream whose message the socket is writing. -/
structure State (α υ ε ρ φ : Type) where
  streams : List (ActiveStream α υ ε ρ φ)
  writes : List (ℕ × ServerMessage υ φ)
  inflight : Option ℕ
  socket : Socket
  trace : List (Event υ φ)
deriving DecidableEq

inductive Action (α υ ε ρ : Type)
  | receive (message : ClientMessage α)
  /-- The opener resolves, or rejects. -/
  | opened (i : ℕ)
  | rejected (i : ℕ) (e : ε)
  /-- The source yields, ends or throws. -/
  | yields (i : ℕ) (value : υ)
  | returns (i : ℕ)
  | throws (i : ℕ) (e : ε)
  /-- The source has returned after an item could not be sent. -/
  | unwound (i : ℕ)
  /-- The socket takes the next message. -/
  | transmit
  /-- The socket has written it, or lost it on closing. -/
  | written
  | lost
  /-- The settled pump leaves the table. -/
  | removed (i : ℕ)
  /-- The opener aborts the stream. -/
  | aborts (i : ℕ) (failure : Option ρ)
  /-- The reader of the uplink takes its iterator, reads, continues a read, and stops. -/
  | iterates (i : ℕ)
  | reads (i : ℕ)
  | resumes (i id : ℕ)
  | stopsReading (i : ℕ)
  /-- The socket begins to close, and has closed. -/
  | closing
  | closed

section

variable {α υ ε ρ φ : Type}

def initial : State α υ ε ρ φ := ⟨[], [], none, .opened, []⟩

namespace State

def isOpen (s : State α υ ε ρ φ) : Bool := s.socket = .opened

/-- `socket.close`. -/
def close (s : State α υ ε ρ φ) : State α υ ε ρ φ :=
  if s.socket = .opened then { s with socket := .closing } else s

def update (s : State α υ ε ρ φ) (i : ℕ)
    (f : ActiveStream α υ ε ρ φ → ActiveStream α υ ε ρ φ) : State α υ ε ρ φ :=
  { s with streams := s.streams.modify i f }

/-- The stream the table holds under an id. -/
def lookup (s : State α υ ε ρ φ) (streamId : String) : Option ℕ :=
  s.streams.findIdx? fun st => st.listed && st.streamId == streamId

/-- Run `f` on the stream the table holds; frames for other ids are dropped. -/
def dispatch (s : State α υ ε ρ φ) (streamId : String)
    (f : ActiveStream α υ ε ρ φ → ActiveStream α υ ε ρ φ) : State α υ ε ρ φ :=
  match s.lookup streamId with
  | some i => s.update i f
  | none => s

def openStream (carrier : Carrier υ ε ρ φ) (s : State α υ ε ρ φ) (streamId endpoint : String) :
    State α υ ε ρ φ :=
  if (s.lookup streamId).isSome then s.close
  else
    { s with
      streams := s.streams ++ [{
        streamId := streamId
        inbox := .create carrier.streamInboxBytes endpoint
        abort := none
        pump := .opening
        listed := true
        yielded := []
        messages := []
        verdict := none }]
      trace := s.trace ++ [.opened s.streams.length streamId] }

def receive (carrier : Carrier υ ε ρ φ) (s : State α υ ε ρ φ) : ClientMessage α → State α υ ε ρ φ
  | .open streamId endpoint => s.openStream carrier streamId endpoint
  | .item streamId value frameBytes => s.dispatch streamId fun st => st.push value frameBytes
  | .end streamId => s.dispatch streamId fun st => { st with inbox := st.inbox.end }
  | .cancel streamId => s.dispatch streamId fun st => st.stop "Remote stream cancelled"

/-- Take a turn of the pump of the stream `i`. -/
def take (s : State α υ ε ρ φ) (i : ℕ) (t : Turn α υ ε ρ φ) : State α υ ε ρ φ :=
  let next :=
    { s with
      streams := s.streams.set i t.stream
      writes := s.writes ++ (t.message.map fun m => (i, m)).toList }
  if t.closes then next.close else next

/-- Take a turn of the pump of the stream `i` if it stands where `ready` says. -/
def turn (s : State α υ ε ρ φ) (i : ℕ) (ready : Pump ε ρ → Bool)
    (f : ActiveStream α υ ε ρ φ → Turn α υ ε ρ φ) : Option (State α υ ε ρ φ) :=
  match s.streams[i]? with
  | some st => if ready st.pump then some (s.take i (f st)) else none
  | none => none

/-- The reader of the uplink of the stream `i` acts on its inbox. -/
def reader (s : State α υ ε ρ φ) (i : ℕ) (f : UplinkInbox α → UplinkInbox α) :
    Option (State α υ ε ρ φ) :=
  if i < s.streams.length then some (s.update i fun st => { st with inbox := f st.inbox }) else none

end State

/-- One action of the connection, its clients, its sources or its readers, where it can
happen. -/
def step (carrier : Carrier υ ε ρ φ) (s : State α υ ε ρ φ) :
    Action α υ ε ρ → Option (State α υ ε ρ φ)
  | .receive message => if s.socket = .closed then none else some (s.receive carrier message)
  | .opened i => s.turn i Pump.isOpening fun st => ActiveStream.quiet { st with pump := .pulling }
  | .rejected i e => s.turn i Pump.isOpening fun st => st.settle carrier s.isOpen (some (.source e))
  | .yields i value => s.turn i Pump.isPulling fun st => st.pull carrier value
  | .returns i => s.turn i Pump.isPulling fun st => st.settle carrier s.isOpen none
  | .throws i e => s.turn i Pump.isPulling fun st => st.settle carrier s.isOpen (some (.source e))
  | .unwound i =>
    match s.streams[i]? with
    | some st =>
      match st.pump with
      | .unwinding e => some (s.take i (st.settle carrier s.isOpen (some e)))
      | _ => none
    | none => none
  | .transmit =>
    match s.inflight, s.writes with
    | none, (i, message) :: rest =>
      match s.streams[i]? with
      | some st =>
        if s.isOpen then
          some { s with
            writes := rest
            inflight := some i
            trace := s.trace ++ [.sent i st.streamId message] }
        else some ({ s with writes := rest }.take i (st.delivered carrier s.isOpen false))
      | none => none
    | _, _ => none
  | .written =>
    match s.inflight with
    | some i =>
      match s.streams[i]? with
      | some st => some ({ s with inflight := none }.take i (st.delivered carrier s.isOpen true))
      | none => none
    | none => none
  | .lost =>
    match s.inflight with
    | some i =>
      match s.streams[i]? with
      | some st =>
        if s.isOpen then none
        else some ({ s with inflight := none }.take i (st.delivered carrier s.isOpen false))
      | none => none
    | none => none
  | .removed i =>
    match s.streams[i]? with
    | some st =>
      if st.pump.isDone then some (s.update i fun st => { st with listed := false }) else none
    | none => none
  | .aborts i failure =>
    if i < s.streams.length then
      some (s.update i fun st =>
        match failure with
        | some r => st.abortWith (.remote r)
        | none => st.abortWith (.host "aborted"))
    else none
  | .iterates i => s.reader i fun inbox => (inbox.iterator.toOption).getD inbox
  | .reads i => s.reader i UplinkInbox.next
  | .resumes i id =>
    match s.streams[i]? with
    | some st => if id ∈ st.inbox.woken then s.reader i fun inbox => inbox.resume id else none
    | none => none
  | .stopsReading i => s.reader i UplinkInbox.return
  | .closing => if s.socket = .opened then some s.close else none
  | .closed =>
    if s.socket = .closed then none
    else
      some { s with
        socket := .closed
        streams := s.streams.map fun st =>
          if st.listed then st.stop "Remote stream socket closed" else st }

end

end StreamMux

end Gateway

end TianmaCoder
