import Mathlib.Data.List.Count
import TianmaCoder.Persistence.WriteHandle

/-!
# The live buffer

What a turn of the chain can do, and what follows for the routed live events: each is
persisted, in the batch of the running drain, or buffered, in the order they were enqueued,
and one drain at most is in flight.

## Main definitions

* `TurnMove` — every way a turn advances.
* `LiveBuffer` — where the enqueued events are, and which drain is in flight.

## Main results

* `LiveBuffer.of_run` — both hold after every run of a fresh handle.
-/

namespace TianmaCoder

theorem HandleStorage.writtenBy_of_append {s s' : HandleStorage} {o : BatchOrigin}
    {batch : List SessionEvent} (hw : s'.written = s.written ++ batch.map (Prod.mk o))
    (origin : BatchOrigin) :
    s'.writtenBy origin = s.writtenBy origin ++ if o = origin then batch else [] := by
  unfold HandleStorage.writtenBy
  rw [hw, List.filter_append, List.map_append, List.filter_map]
  by_cases ho : o = origin <;> simp [ho, Function.comp_def]

namespace JsonlSessionHandle

variable {h h' : JsonlSessionHandle}

/-! ## Frames -/

variable (l : Option ℕ)

@[simp] theorem settleListener_storage (ok : Bool) :
    (h.settleListener l ok).storage = h.storage := by cases l <;> rfl
@[simp] theorem settleListener_enqueued (ok : Bool) :
    (h.settleListener l ok).enqueued = h.enqueued := by cases l <;> rfl
@[simp] theorem settleListener_chain (ok : Bool) :
    (h.settleListener l ok).chain = h.chain := by cases l <;> rfl
@[simp] theorem settleListener_running (ok : Bool) :
    (h.settleListener l ok).running = h.running := by cases l <;> rfl
@[simp] theorem settleListener_buffered (ok : Bool) :
    (h.settleListener l ok).buffered = h.buffered := by cases l <;> rfl
@[simp] theorem settleListener_draining (ok : Bool) :
    (h.settleListener l ok).draining = h.draining := by cases l <;> rfl

variable (body : TurnBody)

@[simp] theorem settleTurn_storage (ok : Bool) : (h.settleTurn body ok).storage = h.storage := by
  rcases body with ⟨_ | _, _⟩ | _ <;> cases ok <;> simp [settleTurn]
@[simp] theorem settleTurn_enqueued (ok : Bool) : (h.settleTurn body ok).enqueued = h.enqueued := by
  rcases body with ⟨_ | _, _⟩ | _ <;> cases ok <;> simp [settleTurn]
@[simp] theorem settleTurn_chain (ok : Bool) : (h.settleTurn body ok).chain = h.chain := by
  rcases body with ⟨_ | _, _⟩ | _ <;> cases ok <;> simp [settleTurn]
@[simp] theorem settleTurn_running (ok : Bool) : (h.settleTurn body ok).running = none := by
  rcases body with ⟨_ | _, _⟩ | _ <;> cases ok <;> simp [settleTurn]

@[simp] theorem drainLoop_storage : h.drainLoop.storage = h.storage := by
  unfold drainLoop; split <;> rfl
@[simp] theorem drainLoop_enqueued : h.drainLoop.enqueued = h.enqueued := by
  unfold drainLoop; split <;> rfl
@[simp] theorem drainLoop_listeners : h.drainLoop.listeners = h.listeners := by
  unfold drainLoop; split <;> rfl
@[simp] theorem drainLoop_running : h.drainLoop.running = h.running := by
  unfold drainLoop; split <;> rfl

@[simp] theorem drainLive_storage : h.drainLive.storage = h.storage := by
  unfold drainLive; split <;> simp [drainBuffered]
@[simp] theorem drainLive_enqueued : h.drainLive.enqueued = h.enqueued := by
  unfold drainLive; split <;> simp [drainBuffered]
@[simp] theorem drainLive_listeners : h.drainLive.listeners = h.listeners := by
  unfold drainLive; split <;> simp [drainBuffered]
@[simp] theorem drainLive_running : h.drainLive.running = h.running := by
  unfold drainLive; split <;> simp [drainBuffered]

variable (e : SessionEvent)

@[simp] theorem enqueueLive_storage :
    (h.enqueueLive e).storage = h.storage := by simp only [enqueueLive]; split <;> rfl
@[simp] theorem enqueueLive_enqueued :
    (h.enqueueLive e).enqueued = h.enqueued ++ [e] := by simp only [enqueueLive]; split <;> rfl
@[simp] theorem enqueueLive_listeners :
    (h.enqueueLive e).listeners = h.listeners := by simp only [enqueueLive]; split <;> rfl
@[simp] theorem enqueueLive_running :
    (h.enqueueLive e).running = h.running := by simp only [enqueueLive]; split <;> rfl
@[simp] theorem enqueueLive_chain :
    (h.enqueueLive e).chain = h.chain := by simp only [enqueueLive]; split <;> rfl
@[simp] theorem enqueueLive_draining :
    (h.enqueueLive e).draining = h.draining := by simp only [enqueueLive]; split <;> rfl

/-! ## Turns -/

/-- How a turn advances: it awaits a primitive, it rejects, or it fulfils, a batch then
being among the persisted events. -/
inductive TurnMove (h : JsonlSessionHandle) (body : TurnBody) : JsonlSessionHandle → Prop
  | awaits (storage : HandleStorage) (primitive : Awaited)
      (hwritten : storage.written = h.storage.written) :
      TurnMove h body ((h.setStorage storage).await body primitive)
  | rejects (storage : HandleStorage) (hwritten : storage.written = h.storage.written) :
      TurnMove h body ((h.setStorage storage).settleTurn body false)
  | flushed (storage : HandleStorage) (listener : Option ℕ) (hbody : body = .flush listener)
      (hwritten : storage.written = h.storage.written) :
      TurnMove h body ((h.setStorage storage).settleTurn body true)
  | persisted (storage : HandleStorage) (origin : BatchOrigin) (batch : List SessionEvent)
      (hbody : body = .persist origin batch)
      (hwritten : storage.written = h.storage.written ++ batch.map (Prod.mk origin)) :
      TurnMove h body ((h.setStorage storage).settleTurn body true)

theorem TurnMove.of_setStorage {storage : HandleStorage} {body : TurnBody}
    (hwritten : storage.written = h.storage.written)
    (hmove : TurnMove (h.setStorage storage) body h') : TurnMove h body h' := by
  cases hmove with
  | awaits s p hw => exact .awaits s p (hw.trans hwritten)
  | rejects s hw => exact .rejects s (hw.trans hwritten)
  | flushed s l hbody hw => exact .flushed s l hbody (hw.trans hwritten)
  | persisted s o b hbody hw => exact .persisted s o b hbody (by rw [hw]; simp [setStorage, hwritten])

theorem rewriteRecovered_move : TurnMove h body (h.rewriteRecovered body) := by
  unfold rewriteRecovered
  split
  · exact .awaits h.storage .persistBatch rfl
  · exact .awaits _ .persistBatch rfl
  · exact .awaits h.storage .persistRecovered rfl

theorem withLease_move : TurnMove h body (h.withLease body) := by
  unfold withLease
  split
  · exact .awaits h.storage .persistHeader rfl
  · split
    · split
      · exact .awaits h.storage .truncateTornTail rfl
      · exact rewriteRecovered_move _
    · exact .rejects h.storage rfl

theorem persistContiguous_move (origin : BatchOrigin) (batch : List SessionEvent) :
    TurnMove h (.persist origin batch) (h.persistContiguous origin batch) := by
  unfold persistContiguous
  by_cases hempty : batch = []
  · subst hempty
    exact .persisted h.storage origin [] rfl (by simp)
  · rw [if_neg hempty]
    exact .awaits h.storage .acquireWriteLease rfl

theorem primitiveDone_move {body : TurnBody} {primitive : Awaited}
    (hdone : h.primitiveDone body primitive = some h') : TurnMove h body h' := by
  cases primitive with
  | acquireWriteLease =>
    cases hdone
    exact .of_setStorage (by rfl) (withLease_move body)
  | truncateTornTail =>
    have ⟨offset, _, heq⟩ := Option.map_eq_some_iff.mp hdone
    subst heq
    exact .of_setStorage (by rfl) (rewriteRecovered_move body)
  | persistRecovered =>
    have ⟨recovered, _, hsome⟩ := Option.bind_eq_some_iff.mp hdone
    have ⟨file, _, heq⟩ := Option.map_eq_some_iff.mp hsome
    subst heq
    exact .awaits _ .persistBatch rfl
  | persistBatch =>
    cases body with
    | flush listener => cases hdone
    | persist origin batch =>
      have ⟨file, _, heq⟩ := Option.map_eq_some_iff.mp hdone
      subst heq
      exact .persisted _ origin batch rfl rfl
  | persistHeader =>
    cases body with
    | persist origin batch => cases hdone
    | flush listener =>
      have ⟨file, _, heq⟩ := Option.map_eq_some_iff.mp hdone
      subst heq
      exact .flushed _ listener rfl rfl

theorem settlePrimitive_move {body : TurnBody} {primitive : Awaited} {ok : Bool}
    (hsettle : h.settlePrimitive body primitive ok = some h') : TurnMove h body h' := by
  unfold settlePrimitive at hsettle
  split at hsettle
  · exact primitiveDone_move hsettle
  · split at hsettle
    · cases hsettle
    · cases hsettle
      exact .rejects h.storage rfl

/-- The body of an operation whose turn starts; a drain captures the buffer. -/
def bodyOf (h : JsonlSessionHandle) : ChainedOp → TurnBody
  | .drain => .persist .live h.buffered
  | .append batch => .persist .append batch
  | .flush listener => .flush listener

/-- The handle a started turn works on. -/
def capture (h : JsonlSessionHandle) : ChainedOp → JsonlSessionHandle
  | .drain => { h with buffered := [] }
  | .append _ => h
  | .flush _ => h

theorem startOp_move {op : ChainedOp} {aborted : Bool}
    (hstart : h.startOp op aborted = some h') : TurnMove (h.capture op) (h.bodyOf op) h' := by
  cases op with
  | drain =>
    cases aborted with
    | true => cases hstart
    | false =>
      cases hstart
      exact persistContiguous_move .live h.buffered
  | append batch =>
    cases aborted with
    | true =>
      cases hstart
      exact .rejects h.storage rfl
    | false =>
      cases hstart
      exact persistContiguous_move .append batch
  | flush listener =>
    simp only [startOp] at hstart
    split at hstart
    · split at hstart
      · cases hstart
      · cases hstart
        exact .rejects h.storage rfl
    · split at hstart
      · cases hstart
        exact .flushed h.storage listener rfl rfl
      · cases hstart
        exact .awaits h.storage .acquireWriteLease rfl

/-! ## Where the enqueued events are -/

/-- The live events a turn has captured. -/
def liveBatch : Option TurnBody → List SessionEvent
  | some (.persist .live batch) => batch
  | _ => []

/-- How many drains a turn stands for. -/
def liveTurns : Option TurnBody → ℕ
  | some (.persist .live _) => 1
  | _ => 0

/-- How many turns the promise in `draining` awaits. -/
def awaitedTurns : Option DrainPhase → ℕ
  | some .awaitsTurn => 1
  | _ => 0

/-- The body of the running turn. -/
def turn (h : JsonlSessionHandle) : Option TurnBody := h.running.map (·.1)

/-- With `body` as the turn under way: the enqueued events are those persisted, those
captured and those buffered, in this order, and one drain is chained or under way exactly
while `draining` awaits its turn. -/
structure Accounts (h : JsonlSessionHandle) (body : Option TurnBody) : Prop where
  split : h.enqueued = h.storage.writtenBy .live ++ liveBatch body ++ h.buffered
  single : h.chain.count .drain + liveTurns body = awaitedTurns h.draining

/-- The accounts of a handle with its running turn. -/
def LiveBuffer (h : JsonlSessionHandle) : Prop := Accounts h h.turn

theorem awaitedTurns_le_one (d : Option DrainPhase) : awaitedTurns d ≤ 1 := by
  rcases d with _ | _ | _ | _ <;> simp [awaitedTurns]

namespace Accounts

variable {body : TurnBody}

/-- A turn that rejects gives its batch back. -/
theorem settleTurn_false (hacc : Accounts h (some body)) :
    LiveBuffer (h.settleTurn body false) := by
  have hone := hacc.single
  have hle := awaitedTurns_le_one h.draining
  constructor
  · rcases body with ⟨_ | _, batch⟩ | listener <;>
      simpa [settleTurn, turn, liveBatch] using hacc.split
  · rcases body with ⟨_ | _, batch⟩ | listener
    · simp only [liveTurns] at hone
      simp only [settleTurn, turn, liveTurns, awaitedTurns, Option.map_none, Bool.false_eq_true,
        if_false]
      omega
    · simpa [settleTurn, turn, liveTurns] using hone
    · simpa [settleTurn, turn, liveTurns] using hone

/-- A turn that fulfils has no batch left. -/
theorem settleTurn_true (hsplit : h.enqueued = h.storage.writtenBy .live ++ h.buffered)
    (hone : h.chain.count .drain + liveTurns (some body) = awaitedTurns h.draining) :
    LiveBuffer (h.settleTurn body true) := by
  have hle := awaitedTurns_le_one h.draining
  constructor
  · rcases body with ⟨_ | _, batch⟩ | listener <;>
      simpa [settleTurn, turn, liveBatch] using hsplit
  · rcases body with ⟨_ | _, batch⟩ | listener
    · simp only [liveTurns] at hone
      simp only [settleTurn, turn, liveTurns, awaitedTurns, Option.map_none, if_true]
      omega
    · simpa [settleTurn, turn, liveTurns] using hone
    · simpa [settleTurn, turn, liveTurns] using hone

theorem setStorage {storage : HandleStorage} (hacc : Accounts h (some body))
    (hwritten : storage.written = h.storage.written) :
    Accounts (h.setStorage storage) (some body) where
  split := by
    have hsplit := hacc.split
    rw [HandleStorage.writtenBy, ← hwritten] at hsplit
    exact hsplit
  single := hacc.single

/-- Every way a turn advances keeps the accounts. -/
theorem turnMove (hacc : Accounts h (some body)) (hmove : TurnMove h body h') : LiveBuffer h' := by
  cases hmove with
  | awaits storage primitive hwritten =>
    have hacc' := hacc.setStorage hwritten
    exact ⟨hacc'.split, hacc'.single⟩
  | rejects storage hwritten => exact (hacc.setStorage hwritten).settleTurn_false
  | flushed storage listener hbody hwritten =>
    subst hbody
    have hacc' := hacc.setStorage hwritten
    refine settleTurn_true ?_ hacc'.single
    simpa [liveBatch] using hacc'.split
  | persisted storage origin batch hbody hwritten =>
    subst hbody
    refine settleTurn_true ?_ hacc.single
    have hsplit := hacc.split
    have hby := HandleStorage.writtenBy_of_append hwritten .live
    change h.enqueued = storage.writtenBy .live ++ h.buffered
    cases origin <;> simpa [hby, liveBatch] using hsplit

end Accounts

namespace LiveBuffer

theorem of_origin (o : HandleOrigin) : LiveBuffer o.handle := by
  cases o with
  | created n => exact ⟨rfl, rfl⟩
  | opened log => exact ⟨rfl, rfl⟩

/-- Starting an operation hands its captured events to the turn. -/
theorem capture {op : ChainedOp} {chain : List ChainedOp} (hbuf : LiveBuffer h)
    (hrun : h.running = none) (hchain : h.chain = op :: chain) :
    Accounts ({ h with chain }.capture op) (some (h.bodyOf op)) := by
  have hsplit := hbuf.split
  have hone := hbuf.single
  rw [hchain] at hone
  simp only [turn, hrun, Option.map_none, liveBatch, liveTurns, List.append_nil] at hsplit hone
  constructor
  · cases op <;> simpa [JsonlSessionHandle.capture, bodyOf, liveBatch] using hsplit
  · cases op <;> simpa [JsonlSessionHandle.capture, bodyOf, liveTurns] using hone

theorem drainLoop (hbuf : LiveBuffer h) (hnone : awaitedTurns h.draining = 0) :
    LiveBuffer h.drainLoop := by
  have hone := hbuf.single
  rw [hnone] at hone
  unfold JsonlSessionHandle.drainLoop
  split
  · exact ⟨hbuf.split, hone⟩
  · refine ⟨hbuf.split, ?_⟩
    simp only [List.count_append, List.count_singleton_self, awaitedTurns]
    change h.chain.count .drain + 1 + liveTurns h.turn = 1
    omega

theorem drainLive (hbuf : LiveBuffer h) : LiveBuffer h.drainLive := by
  unfold JsonlSessionHandle.drainLive
  split
  · exact hbuf
  · next hnone =>
      refine LiveBuffer.drainLoop ⟨hbuf.split, hbuf.single⟩ ?_
      rw [hnone]
      rfl

theorem enqueueLive (hbuf : LiveBuffer h) (event : SessionEvent) :
    LiveBuffer (h.enqueueLive event) := by
  have hsplit : h.enqueued ++ [event]
      = h.storage.writtenBy .live ++ liveBatch h.turn ++ (h.buffered ++ [event]) := by
    rw [hbuf.split]
    simp
  simp only [JsonlSessionHandle.enqueueLive]
  split
  · exact ⟨hsplit, hbuf.single⟩
  · exact ⟨hsplit, hbuf.single⟩

/-- Every action keeps the accounts. -/
theorem step {a : HandleAction} (hbuf : LiveBuffer h) (hstep : h.step a = some h') :
    LiveBuffer h' := by
  cases a with
  | enqueueLive event =>
    cases hstep
    exact hbuf.enqueueLive event
  | batchTimer =>
    simp only [JsonlSessionHandle.step] at hstep
    split at hstep
    · cases hstep
      exact LiveBuffer.drainLive ⟨hbuf.split, hbuf.single⟩
    · cases hstep
  | drainLive =>
    cases hstep
    exact hbuf.drainLive
  | sessionFlush =>
    cases hstep
    exact ⟨hbuf.drainLive.split, hbuf.drainLive.single⟩
  | append events =>
    cases hstep
    exact ⟨hbuf.split, by simpa [turn] using hbuf.single⟩
  | flush =>
    cases hstep
    exact ⟨hbuf.split, by simpa [turn] using hbuf.single⟩
  | startTurn aborted =>
    simp only [JsonlSessionHandle.step] at hstep
    split at hstep
    · next op chain hrun hchain =>
        exact (hbuf.capture hrun hchain).turnMove (startOp_move hstep)
    · cases hstep
  | settle ok =>
    simp only [JsonlSessionHandle.step] at hstep
    split at hstep
    · next body primitive hrun =>
        have hacc : Accounts h (some body) := by simpa [LiveBuffer, turn, hrun] using hbuf
        exact hacc.turnMove (settlePrimitive_move hstep)
    · cases hstep
  | drainResumes =>
    simp only [JsonlSessionHandle.step] at hstep
    split at hstep
    · next hdone =>
        cases hstep
        exact hbuf.drainLoop (by rw [hdone]; rfl)
    · cases hstep
  | drainSettles =>
    simp only [JsonlSessionHandle.step] at hstep
    split at hstep
    · next ok hdone =>
        cases hstep
        exact ⟨hbuf.split, by have hone := hbuf.single; rw [hdone] at hone; exact hone⟩
    · cases hstep
  | listenerResumes i =>
    simp only [JsonlSessionHandle.step] at hstep
    split at hstep
    · cases hstep
      exact ⟨hbuf.split, by simpa [turn, JsonlSessionHandle.listenerResumes] using hbuf.single⟩
    · cases hstep

theorem of_run {o : HandleOrigin} {as : List HandleAction}
    (hrun : Transition.run JsonlSessionHandle.step o.handle as = some h) : LiveBuffer h :=
  Transition.run_induction (fun _ _ _ hbuf hstep => hbuf.step hstep) (of_origin o) hrun

theorem writtenBy_eq_take (hbuf : LiveBuffer h) {n : ℕ}
    (hn : n ≤ (h.storage.writtenBy .live).length) :
    h.enqueued.take n <+: h.storage.writtenBy .live := by
  have hsplit := hbuf.split
  rw [hsplit, List.append_assoc, List.take_append_of_le_length hn]
  exact List.take_prefix n _

theorem writtenBy_eq_enqueued (hbuf : LiveBuffer h) (hnone : awaitedTurns h.draining = 0)
    (hempty : h.buffered = []) : h.storage.writtenBy .live = h.enqueued := by
  have hsplit := hbuf.split
  have hone := hbuf.single
  have hbatch : liveBatch h.turn = [] := by
    rcases hturn : h.turn with _ | ⟨_ | _, batch⟩ | listener
    · rfl
    · rw [hturn, hnone] at hone
      simp only [liveTurns] at hone
      omega
    · rfl
    · rfl
  rw [hsplit, hbatch, hempty]
  simp

end LiveBuffer

end JsonlSessionHandle

end TianmaCoder
