import TianmaCoder.Session.Repair
import TianmaCoder.Session.Replay

/-!
# Repair balances a valid log

The repair scan and the session trace follow the same boundaries. The waiting calls of the
scan are the tool-call blocks of the open step that no later `tool/result` of any kind names
(`Agrees`), while a call is unanswered until a result *appended* for it; a content rewrite of
an older result under the same call id separates the two. The closers are always accepted and
always balance the log; they answer every unanswered call exactly when no rewrite did
separate them.

## Main results

* `agrees_of_runTrace` — the two trackers agree over every accepted log.
* `closers_accepted`, `closers_traced` — the closers pass the surface and the invariant.
* `balances_iff` — when every unanswered call receives its synthetic result.
-/

namespace TianmaCoder

open Checked

/-! ## What one traced event can do -/

/-- The transitions of the session trace. -/
inductive TraceMove (trace : SessionTrace) (event : SessionEvent) : SessionTrace → Prop
  | turnStart (htype : event.type = .turnStart) (hturn : trace.openTurn = none)
      (hnumber : event.turn = .nat trace.nextTurn) :
      TraceMove trace event
        { trace with lastSeq := event.seq, openTurn := some event.turn, nextStep := 1 }
  | turnEnd (htype : event.type = .turnEnd) (hturn : trace.openTurn = some event.turn)
      (hstep : trace.openStep = none) :
      TraceMove trace event
        { trace with lastSeq := event.seq, openTurn := none, nextTurn := trace.nextTurn + 1 }
  | stepStart (htype : event.type = .stepStart) (hturn : trace.openTurn = some event.turn)
      (hstep : trace.openStep = none) (hnumber : event.step = .nat trace.nextStep) :
      TraceMove trace event { trace with lastSeq := event.seq, openStep := some event.step }
  | stepEnd (htype : event.type = .stepEnd) (hturn : trace.openTurn = some event.turn)
      (hstep : trace.openStep = some event.step) :
      TraceMove trace event
        { trace with
          lastSeq := event.seq, openStep := none, nextStep := trace.nextStep + 1,
          pendingCalls := [] }
  | inStep (htype : event.type ∈ [EventType.developerMessage, .assistantAttempt,
        .assistantMessage, .systemMessage])
      (hturn : trace.openTurn = some event.turn) (hstep : trace.openStep = some event.step) :
      TraceMove trace event { trace with lastSeq := event.seq }
  | toolCall (htype : event.type = .toolCall) (hturn : trace.openTurn = some event.turn)
      (hstep : trace.openStep = some event.step) :
      TraceMove trace event
        { trace with
          lastSeq := event.seq
          pendingCalls :=
            if event.callId ∈ trace.pendingCalls then trace.pendingCalls
            else trace.pendingCalls ++ [event.callId] }
  | rewrite (htype : event.type = .toolResult) (hop : event.isAppend = false)
      (hturn : trace.openTurn.isSome = true) :
      TraceMove trace event { trace with lastSeq := event.seq }
  | result (htype : event.type = .toolResult) (hop : event.isAppend = true)
      (hturn : trace.openTurn = some event.turn) (hstep : trace.openStep = some event.step)
      (hknown : event.resultCallId ∈ trace.pendingCalls ∨ event.isSyntheticNotStarted = true) :
      TraceMove trace event
        { trace with
          lastSeq := event.seq
          pendingCalls := trace.pendingCalls.filter (· ≠ event.resultCallId) }
  | other (htype : event.type ∉ [EventType.turnStart, .turnEnd, .stepStart, .stepEnd,
        .developerMessage, .assistantAttempt, .assistantMessage, .systemMessage, .toolCall,
        .toolResult]) :
      TraceMove trace event { trace with lastSeq := event.seq }

variable {trace : SessionTrace} {event : SessionEvent}

theorem requireOpenStep_ok (h : requireOpenStep trace event = .ok ()) :
    trace.openTurn = some event.turn ∧ trace.openStep = some event.step := by
  unfold requireOpenStep at h
  by_contra hne
  rw [not_and_or] at hne
  rw [if_pos hne] at h
  cases h

variable {trace' : SessionTrace}

/-- Everything an accepted event does to the trace. -/
theorem traceEvent_cases (h : traceEvent trace event = .ok trace') :
    trace.lastSeq < event.seq ∧ TraceMove trace event trace' := by
  unfold traceEvent at h
  obtain ⟨transition, hvalid, h⟩ := bind_ok h
  cases h
  unfold validateEvent at hvalid
  by_cases hseq : (event.seq : ℤ) ≤ trace.lastSeq
  · simp [hseq] at hvalid
  · simp only [hseq, if_false, pure_eq] at hvalid
    refine ⟨Int.not_le.mp hseq, ?_⟩
    cases htype : event.type
    case turnStart =>
      simp only [htype] at hvalid
      cases hturn : trace.openTurn with
      | some turn => simp [hturn] at hvalid
      | none =>
        by_cases hnumber : event.turn = .nat trace.nextTurn
        · simp [hturn, hnumber] at hvalid
          subst hvalid
          rw [← hnumber]
          exact .turnStart htype hturn hnumber
        · simp [hturn, hnumber] at hvalid
    case turnEnd =>
      simp only [htype] at hvalid
      by_cases hturn : trace.openTurn = some event.turn
      · cases hstep : trace.openStep with
        | some step => simp [hturn, hstep] at hvalid
        | none =>
          simp [hturn, hstep] at hvalid
          subst hvalid
          exact .turnEnd htype hturn hstep
      · simp [hturn] at hvalid
    case stepStart =>
      simp only [htype] at hvalid
      by_cases hturn : trace.openTurn = some event.turn
      · cases hstep : trace.openStep with
        | some step => simp [hturn, hstep] at hvalid
        | none =>
          by_cases hnumber : event.step = .nat trace.nextStep
          · simp [hturn, hstep, hnumber] at hvalid
            subst hvalid
            rw [← hnumber]
            exact .stepStart htype hturn hstep hnumber
          · simp [hturn, hstep, hnumber] at hvalid
      · simp [hturn] at hvalid
    case toolResult =>
      simp only [htype] at hvalid
      cases hop : event.isAppend with
      | false =>
        cases hturn : trace.openTurn with
        | none => simp [hop, hturn] at hvalid
        | some turn =>
          simp [hop, hturn] at hvalid
          subst hvalid
          exact .rewrite htype hop (by simp [hturn])
      | true =>
        simp only [hop, Bool.not_true, Bool.false_eq_true, if_false] at hvalid
        obtain ⟨⟨⟩, hopen, hvalid⟩ := bind_ok hvalid
        obtain ⟨hturn, hstep⟩ := requireOpenStep_ok hopen
        by_cases hunknown : event.resultCallId ∉ trace.pendingCalls
            ∧ event.isSyntheticNotStarted = false
        · simp [hunknown] at hvalid
        · rw [if_neg hunknown] at hvalid
          cases hvalid
          refine .result htype hop hturn hstep ?_
          rw [not_and_or, not_not, Bool.not_eq_false] at hunknown
          exact hunknown
    case stepEnd =>
      simp only [htype] at hvalid
      obtain ⟨⟨⟩, hopen, hvalid⟩ := bind_ok hvalid
      obtain ⟨hturn, hstep⟩ := requireOpenStep_ok hopen
      cases hvalid
      exact .stepEnd htype hturn hstep
    case toolCall =>
      simp only [htype] at hvalid
      obtain ⟨⟨⟩, hopen, hvalid⟩ := bind_ok hvalid
      obtain ⟨hturn, hstep⟩ := requireOpenStep_ok hopen
      cases hvalid
      exact .toolCall htype hturn hstep
    case developerMessage | assistantAttempt | assistantMessage | systemMessage =>
      simp only [htype] at hvalid
      obtain ⟨⟨⟩, hopen, hvalid⟩ := bind_ok hvalid
      obtain ⟨hturn, hstep⟩ := requireOpenStep_ok hopen
      cases hvalid
      exact .inStep (by simp [htype]) hturn hstep
    case requestHeader | requestContext =>
      simp only [htype] at hvalid
      cases hturn : trace.openTurn with
      | none => simp [hturn] at hvalid
      | some turn =>
        simp [hturn] at hvalid
        subst hvalid
        exact .other (by simp [htype])
    all_goals
      simp only [htype] at hvalid
      cases hvalid
      exact .other (by simp [htype])

/-! ## The calls of the open step -/

/-- The calls an assistant message asks for. -/
def SessionEvent.requestedCalls (event : SessionEvent) : List String :=
  if event.type = .assistantMessage then event.toolCallBlocks else []

/-- The event is a `tool/result` for the call, appended or rewritten. -/
def SessionEvent.isResultOf (event : SessionEvent) (callId : String) : Bool :=
  event.type == .toolResult && event.resultCallId == callId

/-- The event is an append-origin `tool/result` for the call. -/
def SessionEvent.isAppendedResultOf (event : SessionEvent) (callId : String) : Bool :=
  event.isResultOf callId && event.isAppend

/-- One event seen from the open step: a step boundary opens or closes it, any other event
joins it. -/
def stepTail (tail : Option (List SessionEvent)) (event : SessionEvent) :
    Option (List SessionEvent) :=
  match event.type with
  | .stepStart => some []
  | .stepEnd | .turnStart | .turnEnd => none
  | _ => tail.map (· ++ [event])

/-- The events logged in the still-open step, or `none` when no step is open. -/
def openStep? (log : List SessionEvent) : Option (List SessionEvent) := log.foldl stepTail none

/-- The events logged in the still-open step. -/
def openStepEvents (log : List SessionEvent) : List SessionEvent := (openStep? log).getD []

/-- The tool-call blocks of the open step with no append-origin result after them. -/
def unansweredCalls (log : List SessionEvent) : List String :=
  outstanding SessionEvent.requestedCalls SessionEvent.isAppendedResultOf (openStepEvents log)

/-- The tool-call blocks of the open step with no result of any origin after them. -/
def untouchedCalls (log : List SessionEvent) : List String :=
  outstanding SessionEvent.requestedCalls SessionEvent.isResultOf (openStepEvents log)

variable (log : List SessionEvent)

theorem openStep?_snoc (event : SessionEvent) :
    openStep? (log ++ [event]) = stepTail (openStep? log) event := by
  simp [openStep?]

theorem scanLog_snoc (event : SessionEvent) :
    scanLog (log ++ [event]) = scanEvent (scanLog log) event := by
  simp [scanLog]

theorem runTrace_snoc (event : SessionEvent) :
    runTrace (log ++ [event]) = runTrace log >>= fun trace => traceEvent trace event :=
  foldlM_snoc traceEvent freshTrace log event

theorem untouchedCalls_sublist : (untouchedCalls log).Sublist (unansweredCalls log) := by
  refine Outstanding.outstanding_sublist ?_ (openStepEvents log)
  intro event callId h
  rw [SessionEvent.isAppendedResultOf, Bool.and_eq_true] at h
  exact h.1

/-- An event that is no boundary joins the open step. -/
def SessionEvent.isBoundary (event : SessionEvent) : Bool :=
  event.type ∈ [EventType.turnStart, .turnEnd, .stepStart, .stepEnd]

theorem stepTail_of_not_boundary (h : event.isBoundary = false) (tail : Option (List SessionEvent)) :
    stepTail tail event = tail.map (· ++ [event]) := by
  unfold stepTail
  split <;> simp_all [SessionEvent.isBoundary]

variable {log : List SessionEvent}

/-- The untouched calls once an event joined the open step. -/
theorem untouchedCalls_snoc (h : event.isBoundary = false) :
    untouchedCalls (log ++ [event])
      = (untouchedCalls log).filter (fun callId => !event.isResultOf callId)
        ++ if (openStep? log).isSome then event.requestedCalls else [] := by
  simp only [untouchedCalls, openStepEvents, openStep?_snoc, stepTail_of_not_boundary h]
  cases openStep? log with
  | none => rfl
  | some tail => exact Outstanding.outstanding_snoc tail event

theorem untouchedCalls_quiet (h : event.isBoundary = false)
    (hmessage : event.type ≠ .assistantMessage) (hresult : event.type ≠ .toolResult) :
    untouchedCalls (log ++ [event]) = untouchedCalls log := by
  rw [untouchedCalls_snoc h, List.filter_eq_self.mpr]
  · simp [SessionEvent.requestedCalls, hmessage]
  · simp [SessionEvent.isResultOf, hresult]

/-! ## Agreement of the two trackers -/

/-- The repair scan and the session trace agree after `log`. -/
structure Agrees (log : List SessionEvent) (trace : SessionTrace) : Prop where
  lastSeq_eq : trace.lastSeq + 1 = log.length
  turn_eq : (scanLog log).openTurn = trace.openTurn
  step_eq : (scanLog log).openStep = trace.openStep
  step_in_turn : trace.openTurn = none → trace.openStep = none
  tail_isSome : (openStep? log).isSome = trace.openStep.isSome
  tracked : Tracked (scanLog log).pendingCalls.keys (untouchedCalls log)
  entry_step : ∀ callId call, (scanLog log).pendingCalls.lookup callId = some call →
    trace.openStep = some call.step
  entry_started : ∀ callId call callSeq,
    (scanLog log).pendingCalls.lookup callId = some call → call.callSeq = some callSeq →
      callId ∈ trace.pendingCalls ∧ callSeq < log.length

theorem agrees_nil : Agrees [] freshTrace where
  lastSeq_eq := rfl
  turn_eq := rfl
  step_eq := rfl
  step_in_turn := fun _ => rfl
  tail_isSome := rfl
  tracked := Tracked.nil
  entry_step := fun callId call h => by cases h
  entry_started := fun callId call callSeq h => by cases h

/-- With no step open there is no waiting call. -/
theorem Agrees.pending_nil (h : Agrees log trace) (hstep : trace.openStep = none) :
    (scanLog log).pendingCalls = [] := by
  cases hcalls : (scanLog log).pendingCalls with
  | nil => rfl
  | cons entry calls =>
    obtain ⟨callId, call⟩ := entry
    have hlookup : (scanLog log).pendingCalls.lookup callId = some call := by
      simp [hcalls]
    have hopen := h.entry_step callId call hlookup
    rw [hstep] at hopen
    cases hopen

/-- An event inside the turn keeps the agreement when the waiting calls it leaves do. -/
theorem Agrees.moved (h : Agrees log trace) (hboundary : event.isBoundary = false)
    {calls : OrderedMap String PendingCall}
    (hscan : scanEvent (scanLog log) event = { scanLog log with pendingCalls := calls })
    (hseq : trace'.lastSeq + 1 = (log ++ [event]).length) (hturn : trace'.openTurn = trace.openTurn)
    (hstep : trace'.openStep = trace.openStep)
    (htracked : Tracked calls.keys (untouchedCalls (log ++ [event])))
    (hentry : ∀ callId call, calls.lookup callId = some call → trace.openStep = some call.step)
    (hstarted : ∀ callId call callSeq, calls.lookup callId = some call →
      call.callSeq = some callSeq → callId ∈ trace'.pendingCalls ∧ callSeq < log.length + 1) :
    Agrees (log ++ [event]) trace' where
  lastSeq_eq := hseq
  turn_eq := by rw [scanLog_snoc, hscan, hturn, ← h.turn_eq]
  step_eq := by rw [scanLog_snoc, hscan, hstep, ← h.step_eq]
  step_in_turn := by
    rw [hturn, hstep]
    exact h.step_in_turn
  tail_isSome := by
    rw [openStep?_snoc, stepTail_of_not_boundary hboundary, Option.isSome_map, hstep,
      h.tail_isSome]
  tracked := by
    rw [scanLog_snoc, hscan]
    exact htracked
  entry_step := by
    rw [scanLog_snoc, hscan, hstep]
    exact hentry
  entry_started := by
    rw [scanLog_snoc, hscan, List.length_append]
    exact hstarted

/-- An entry that stays, of a call that the trace still knows. -/
theorem Agrees.kept (h : Agrees log trace) {callId : String} {call : PendingCall} {callSeq : ℕ}
    (hcall : (scanLog log).pendingCalls.lookup callId = some call)
    (hstarted : call.callSeq = some callSeq)
    (hpending : callId ∈ trace.pendingCalls → callId ∈ trace'.pendingCalls) :
    callId ∈ trace'.pendingCalls ∧ callSeq < log.length + 1 := by
  obtain ⟨hmem, hlt⟩ := h.entry_started callId call callSeq hcall hstarted
  exact ⟨hpending hmem, Nat.lt_succ_of_lt hlt⟩

/-- An event the scan ignores keeps the agreement, whatever call it adds to the trace. -/
theorem Agrees.quiet (h : Agrees log trace) (hboundary : event.isBoundary = false)
    (hmessage : event.type ≠ .assistantMessage) (hresult : event.type ≠ .toolResult)
    (hscan : scanEvent (scanLog log) event = scanLog log)
    (hseq : trace'.lastSeq + 1 = (log ++ [event]).length) (hturn : trace'.openTurn = trace.openTurn)
    (hstep : trace'.openStep = trace.openStep)
    (hpending : ∀ callId ∈ trace.pendingCalls, callId ∈ trace'.pendingCalls) :
    Agrees (log ++ [event]) trace' := by
  apply h.moved hboundary hscan hseq hturn hstep
  · rw [untouchedCalls_quiet hboundary hmessage hresult]
    exact h.tracked
  · exact h.entry_step
  · intro callId call callSeq hcall hstarted
    exact h.kept hcall hstarted (hpending callId)

theorem Agrees.boundary (hseq : trace'.lastSeq + 1 = (log ++ [event]).length)
    (hcalls : (scanEvent (scanLog log) event).pendingCalls = [])
    (hturn : (scanEvent (scanLog log) event).openTurn = trace'.openTurn)
    (hstep : (scanEvent (scanLog log) event).openStep = trace'.openStep)
    (hin : trace'.openTurn = none → trace'.openStep = none)
    (htail : stepTail (openStep? log) event = trace'.openStep.map fun _ => []) :
    Agrees (log ++ [event]) trace' where
  lastSeq_eq := hseq
  turn_eq := by rw [scanLog_snoc, hturn]
  step_eq := by rw [scanLog_snoc, hstep]
  step_in_turn := hin
  tail_isSome := by rw [openStep?_snoc, htail, Option.isSome_map]
  tracked := by
    have hnone : untouchedCalls (log ++ [event]) = [] := by
      rw [untouchedCalls, openStepEvents, openStep?_snoc, htail]
      cases trace'.openStep <;> rfl
    rw [scanLog_snoc, hcalls, hnone]
    exact Tracked.nil
  entry_step := by
    rw [scanLog_snoc, hcalls]
    intro callId call h
    cases h
  entry_started := by
    rw [scanLog_snoc, hcalls]
    intro callId call callSeq h
    cases h

/-- A result of any origin takes its call off the waiting list. -/
theorem Agrees.result (h : Agrees log trace) (htype : event.type = .toolResult)
    (hseq : trace'.lastSeq + 1 = (log ++ [event]).length) (hturn : trace'.openTurn = trace.openTurn)
    (hstep : trace'.openStep = trace.openStep)
    (hpending : ∀ callId ∈ trace.pendingCalls, callId ≠ event.resultCallId →
      callId ∈ trace'.pendingCalls) : Agrees (log ++ [event]) trace' := by
  have hscan : scanEvent (scanLog log) event = { scanLog log with
      pendingCalls := OrderedMap.delete event.resultCallId (scanLog log).pendingCalls } := by
    simp [scanEvent, htype]
  have hboundary : event.isBoundary = false := by simp [SessionEvent.isBoundary, htype]
  apply h.moved hboundary hscan hseq hturn hstep
  · have hfilter : (fun callId => !event.isResultOf callId)
        = fun callId => decide (callId ≠ event.resultCallId) := by
      funext callId
      by_cases hcall : callId = event.resultCallId
      · simp [SessionEvent.isResultOf, htype, hcall]
      · simp [SessionEvent.isResultOf, htype, hcall, Ne.symm hcall]
    have hrequested : event.requestedCalls = [] := by
      simp [SessionEvent.requestedCalls, htype]
    rw [OrderedMap.keys_delete, untouchedCalls_snoc hboundary, hfilter, hrequested, ite_self,
      List.append_nil]
    exact h.tracked.filter _
  · intro callId call hcall
    rw [OrderedMap.lookup_delete] at hcall
    split at hcall
    · cases hcall
    · exact h.entry_step callId call hcall
  · intro callId call callSeq hcall hstarted
    rw [OrderedMap.lookup_delete] at hcall
    split at hcall
    · cases hcall
    · rename_i hne
      exact h.kept hcall hstarted fun hmem => hpending callId hmem hne

/-- Setting every id of a list to one value. -/
theorem lookup_set_all {ν : Type} (ids : List String) (v : ν) (m : OrderedMap String ν)
    (callId : String) :
    (ids.foldl (fun calls id => OrderedMap.set id v calls) m).lookup callId
      = if callId ∈ ids then some v else m.lookup callId := by
  induction ids generalizing m with
  | nil => simp
  | cons id ids ih =>
    rw [List.foldl_cons, ih, OrderedMap.lookup_set]
    by_cases hmem : callId ∈ ids
    · simp [hmem]
    · by_cases hid : callId = id <;> simp [hmem, hid]

/-- The blocks of a message wait for a result, not started. -/
theorem Agrees.message (h : Agrees log trace) (htype : event.type = .assistantMessage)
    (hopen : trace.openStep = some event.step) (hseq : trace'.lastSeq + 1 = (log ++ [event]).length)
    (hturn : trace'.openTurn = trace.openTurn) (hstep : trace'.openStep = trace.openStep)
    (hpending : trace'.pendingCalls = trace.pendingCalls) : Agrees (log ++ [event]) trace' := by
  have hscan : scanEvent (scanLog log) event = { scanLog log with
      pendingCalls := event.toolCallBlocks.foldl
        (fun calls id => OrderedMap.set id { step := event.step } calls)
        (scanLog log).pendingCalls } := by
    simp [scanEvent, htype]
  have hboundary : event.isBoundary = false := by simp [SessionEvent.isBoundary, htype]
  apply h.moved hboundary hscan hseq hturn hstep
  · have hkept : (untouchedCalls log).filter (fun callId => !event.isResultOf callId)
        = untouchedCalls log := by
      rw [List.filter_eq_self]
      simp [SessionEvent.isResultOf, htype]
    rw [untouchedCalls_snoc hboundary, hkept, h.tail_isSome, hopen]
    simp only [SessionEvent.requestedCalls, htype, Option.isSome_some, if_true]
    exact h.tracked.set_all _ _
  · intro callId call hcall
    rw [lookup_set_all] at hcall
    split at hcall
    · cases hcall
      exact hopen
    · exact h.entry_step callId call hcall
  · intro callId call callSeq hcall hstarted
    rw [lookup_set_all] at hcall
    split at hcall
    · cases hcall
      cases hstarted
    · exact h.kept hcall hstarted fun hmem => hpending ▸ hmem

/-- A recorded call start marks its waiting entry and joins the trace. -/
theorem Agrees.toolCall (h : Agrees log trace) (htype : event.type = .toolCall)
    (hat : event.seq = log.length) (hseq : trace'.lastSeq + 1 = (log ++ [event]).length)
    (hturn : trace'.openTurn = trace.openTurn) (hstep : trace'.openStep = trace.openStep)
    (hpending : ∀ callId ∈ trace.pendingCalls, callId ∈ trace'.pendingCalls)
    (hadded : event.callId ∈ trace'.pendingCalls) : Agrees (log ++ [event]) trace' := by
  have hboundary : event.isBoundary = false := by simp [SessionEvent.isBoundary, htype]
  cases hlookup : (scanLog log).pendingCalls.lookup event.callId with
  | none =>
    have hscan : scanEvent (scanLog log) event = scanLog log := by
      simp [scanEvent, htype, hlookup]
    exact h.quiet hboundary (by simp [htype]) (by simp [htype]) hscan hseq hturn hstep hpending
  | some entry =>
    have hscan : scanEvent (scanLog log) event = { scanLog log with
        pendingCalls := OrderedMap.set event.callId { entry with callSeq := some event.seq }
          (scanLog log).pendingCalls } := by
      simp [scanEvent, htype, hlookup]
    have hkeys : event.callId ∈ (scanLog log).pendingCalls.keys :=
      (OrderedMap.mem_keys_iff _ _).mpr (by simp [hlookup])
    apply h.moved hboundary hscan hseq hturn hstep
    · rw [OrderedMap.keys_set, if_pos hkeys,
        untouchedCalls_quiet hboundary (by simp [htype]) (by simp [htype])]
      exact h.tracked
    · intro callId call hcall
      rw [OrderedMap.lookup_set] at hcall
      split at hcall
      · cases hcall
        exact h.entry_step _ entry hlookup
      · exact h.entry_step callId call hcall
    · intro callId call callSeq hcall hstarted
      rw [OrderedMap.lookup_set] at hcall
      split at hcall
      · rename_i hcallId
        cases hcall
        cases hstarted
        exact ⟨hcallId ▸ hadded, by rw [hat]; exact Nat.lt_succ_self _⟩
      · exact h.kept hcall hstarted (hpending callId)

theorem Agrees.snoc (h : Agrees log trace) (hat : event.seq = log.length)
    (hok : traceEvent trace event = .ok trace') : Agrees (log ++ [event]) trace' := by
  obtain ⟨-, hmove⟩ := traceEvent_cases hok
  have hseq : (event.seq : ℤ) + 1 = (log ++ [event]).length := by
    rw [hat, List.length_append]
    rfl
  cases hmove with
  | turnStart htype hturn hnumber =>
    have hclosed := h.step_in_turn hturn
    refine Agrees.boundary hseq ?_ ?_ ?_ ?_ ?_
    · simp [scanEvent, htype]
    · simp [scanEvent, htype]
    · simp [scanEvent, htype, hclosed]
    · exact fun _ => hclosed
    · simp [stepTail, htype, hclosed]
  | turnEnd htype hturn hstep =>
    refine Agrees.boundary hseq ?_ ?_ ?_ ?_ ?_
    · simp [scanEvent, htype]
    · simp [scanEvent, htype]
    · simp [scanEvent, htype, hstep]
    · exact fun _ => hstep
    · simp [stepTail, htype, hstep]
  | stepStart htype hturn hstep hnumber =>
    refine Agrees.boundary hseq ?_ ?_ ?_ ?_ ?_
    · simp [scanEvent, htype, h.pending_nil hstep]
    · simp [scanEvent, htype, h.turn_eq]
    · simp [scanEvent, htype]
    · intro hnone
      rw [hturn] at hnone
      cases hnone
    · simp [stepTail, htype]
  | stepEnd htype hturn hstep =>
    refine Agrees.boundary hseq ?_ ?_ ?_ ?_ ?_
    · simp [scanEvent, htype]
    · simp [scanEvent, htype, h.turn_eq]
    · simp [scanEvent, htype]
    · exact fun _ => rfl
    · simp [stepTail, htype]
  | inStep htype hturn hstep =>
    by_cases hmessage : event.type = .assistantMessage
    · exact h.message hmessage hstep hseq rfl rfl rfl
    · simp only [List.mem_cons, List.not_mem_nil, or_false] at htype
      refine h.quiet ?_ hmessage ?_ ?_ hseq rfl rfl fun _ hmem => hmem
      · rcases htype with htype | htype | htype | htype <;>
          simp [SessionEvent.isBoundary, htype]
      · rcases htype with htype | htype | htype | htype <;> simp [htype]
      · rcases htype with htype | htype | htype | htype
        all_goals first
          | exact absurd htype hmessage
          | simp [scanEvent, htype]
  | toolCall htype hturn hstep =>
    refine h.toolCall htype hat hseq rfl rfl ?_ ?_
    · intro callId hmem
      simp only
      split
      · exact hmem
      · exact List.mem_append_left _ hmem
    · simp only
      split
      · assumption
      · exact List.mem_append_right _ (List.mem_singleton_self _)
  | rewrite htype hop hturn => exact h.result htype hseq rfl rfl fun callId hmem _ => hmem
  | result htype hop hturn hstep hknown =>
    refine h.result htype hseq rfl rfl fun callId hmem hne => ?_
    simpa using ⟨hmem, hne⟩
  | other htype =>
    simp only [List.mem_cons, List.not_mem_nil, or_false, not_or] at htype
    refine h.quiet ?_ htype.2.2.2.2.2.2.1 htype.2.2.2.2.2.2.2.2.2 ?_ hseq rfl rfl
      fun _ hmem => hmem
    · simp [SessionEvent.isBoundary, htype]
    · unfold scanEvent
      split <;> simp_all

theorem agrees_of_runTrace {projections : List SessionMessageProjection}
    {acc : SurfaceFoldState × List SurfaceFoldReplacement}
    (hsurface : foldSurfaceState log projections = .ok acc) (htrace : runTrace log = .ok trace) :
    Agrees log trace := by
  induction log using List.reverseRecOn generalizing acc trace with
  | nil =>
    cases htrace
    exact agrees_nil
  | append_singleton log event ih =>
    obtain ⟨acc₁, plan, hacc, hplan, -⟩ := foldSurfaceState_snoc_ok_iff.mp hsurface
    rw [runTrace_snoc, bind_ok_iff] at htrace
    obtain ⟨trace₁, hlog, hlast⟩ := htrace
    exact (ih hacc hlog).snoc (planSurfaceEvent_cases hplan).1 hlast

/-! ## The closers on the surface -/

variable {projections : List SessionMessageProjection}

theorem plan_closerResult (hdeclared : DeclaredProjections projections)
    (cause : OpenTurnCloseCause) (turn : Json) (time : ℤ) (callId : String) (call : PendingCall)
    {seq : ℕ} (hcited : ∀ callSeq, call.callSeq = some callSeq →
      callSeq < seq ∧ callSeq ≤ Json.maxSafeInteger)
    (state : SurfaceFoldState) (events : List SessionEvent) :
    planSurfaceEvent state (closerResult cause turn time callId call seq) seq events 0 projections
      = .ok (some (.append seq)) := by
  have hsources : ∃ sources,
      sourceEventSeqsOf (closerResult cause turn time callId call seq) = .ok sources := by
    cases hstarted : call.callSeq with
    | none => exact ⟨[], by simp [sourceEventSeqsOf, closerResult, hstarted]⟩
    | some callSeq =>
      obtain ⟨hlt, hsafe⟩ := hcited callSeq hstarted
      refine ⟨[callSeq], ?_⟩
      have hlate : ¬seq ≤ callSeq := Nat.not_le.mpr hlt
      simp [sourceEventSeqsOf, closerResult, hstarted, Json.count?_nat, hsafe, hlate]
  obtain ⟨sources, hsources⟩ := hsources
  have hmeta : validateSurfaceMetadata (closerResult cause turn time callId call seq)
      = .ok (some .append) := by
    have hop : surfaceOpOf (closerResult cause turn time callId call seq) = .ok (some .append) :=
      rfl
    simp [validateSurfaceMetadata, hop, assertSourceEventReferences, hsources]
  have hheader : assertDeveloperHeader (closerResult cause turn time callId call seq) events 0
      = .ok () := rfl
  have hfind : projections.find? (fun item => item.type == EventType.toolResult) = none :=
    find?_eq_none_of_declared hdeclared rfl
  have htype : (closerResult cause turn time callId call seq).type = .toolResult := rfl
  have hseq : (closerResult cause turn time callId call seq).seq = seq := rfl
  simp [planSurfaceEvent, hmeta, hheader, htype, hfind, hseq, EventType.needsMessageProjection]

theorem replays_snoc {events : List SessionEvent} {plan : Option SurfacePlan}
    (h : ∃ acc, foldSurfaceState events projections = .ok acc)
    (hplan : ∀ state, planSurfaceEvent state event events.length events 0 projections = .ok plan) :
    ∃ acc, foldSurfaceState (events ++ [event]) projections = .ok acc := by
  obtain ⟨acc, hacc⟩ := h
  exact ⟨_, foldSurfaceState_snoc_ok_iff.mpr ⟨acc, plan, hacc, hplan acc.1, rfl⟩⟩

/-- Every waiting call cites a safe earlier position, if any. -/
def CitesBelow (calls : OrderedMap String PendingCall) (n : ℕ) : Prop :=
  ∀ entry ∈ calls, ∀ callSeq, entry.2.callSeq = some callSeq →
    callSeq < n ∧ callSeq ≤ Json.maxSafeInteger

theorem replays_closerResults (hdeclared : DeclaredProjections projections)
    (cause : OpenTurnCloseCause) (turn : Json) (time : ℤ) (calls : OrderedMap String PendingCall) :
    ∀ {events : List SessionEvent}, CitesBelow calls events.length →
    (∃ acc, foldSurfaceState events projections = .ok acc) →
    ∃ acc, foldSurfaceState (events ++ closerResults cause turn time calls events.length)
      projections = .ok acc := by
  induction calls with
  | nil =>
    intro events _ h
    rwa [closerResults, List.append_nil]
  | cons entry calls ih =>
    intro events hcited h
    obtain ⟨callId, call⟩ := entry
    have hnext := replays_snoc h (plan_closerResult hdeclared cause turn time callId call
      (hcited (callId, call) List.mem_cons_self) · events)
    have hlength : (events ++ [closerResult cause turn time callId call events.length]).length
        = events.length + 1 := by simp
    rw [closerResults, List.append_cons, ← hlength]
    refine ih ?_ hnext
    intro entry hmem callSeq hstarted
    obtain ⟨hlt, hsafe⟩ := hcited entry (List.mem_cons_of_mem _ hmem) callSeq hstarted
    exact ⟨by omega, hsafe⟩

theorem replays_boundaryClosers (hdeclared : DeclaredProjections projections)
    (cause : OpenTurnCloseCause) (turn : Json) (openStep : Option Json) (time : ℤ)
    {events : List SessionEvent} (h : ∃ acc, foldSurfaceState events projections = .ok acc) :
    ∃ acc, foldSurfaceState (events ++ boundaryClosers cause turn openStep time events.length)
      projections = .ok acc := by
  cases openStep with
  | none =>
    exact replays_snoc h (planSurfaceEvent_logOnly hdeclared rfl rfl rfl rfl · events)
  | some step =>
    have hplan : ∀ state, planSurfaceEvent state (closerStepEnd turn step time events.length)
        events.length events 0 projections = .ok none :=
      (planSurfaceEvent_logOnly hdeclared rfl rfl rfl rfl · events)
    have hstep := replays_snoc h hplan
    have hlength : (events ++ [closerStepEnd turn step time events.length]).length
        = events.length + 1 := by simp
    rw [boundaryClosers, List.append_cons, ← hlength]
    exact replays_snoc hstep (planSurfaceEvent_logOnly hdeclared rfl rfl rfl rfl · _)

variable (cause : OpenTurnCloseCause)

theorem length_closerResults (turn : Json) (time : ℤ) (calls : OrderedMap String PendingCall)
    (seq : ℕ) : (closerResults cause turn time calls seq).length = calls.length := by
  induction calls generalizing seq with
  | nil => rfl
  | cons entry calls ih => exact congrArg (· + 1) (ih (seq + 1))

/-- The closers of an open turn, spelled out. -/
theorem openTurnClosers_eq (h : Agrees log trace) {turn : Json} (hturn : trace.openTurn = some turn)
    (hcontiguous : ∀ i (hi : i < log.length), log[i].seq = i) (cause : OpenTurnCloseCause) :
    ∃ time, log.getLast?.map (·.time) = some time ∧ openTurnClosers log cause
      = closerResults cause turn time (scanLog log).pendingCalls log.length
        ++ boundaryClosers cause turn trace.openStep time
          (log.length + (scanLog log).pendingCalls.length) := by
  have hne : log ≠ [] := by
    rintro rfl
    have hscan := h.turn_eq
    rw [hturn] at hscan
    cases hscan
  have hpos : log.length - 1 < log.length :=
    Nat.sub_lt (List.length_pos_of_ne_nil hne) Nat.one_pos
  have hlast : log.getLast? = some log[log.length - 1] := by
    rw [List.getLast?_eq_getElem?, List.getElem?_eq_getElem hpos]
  have hseq : log[log.length - 1].seq + 1 = log.length := by
    rw [hcontiguous _ hpos]
    omega
  refine ⟨log[log.length - 1].time, by rw [hlast]; rfl, ?_⟩
  rw [openTurnClosers]
  simp only [h.turn_eq, hturn, hlast, hseq, h.step_eq]

theorem openTurnClosers_closed (h : Agrees log trace) (hturn : trace.openTurn = none)
    (cause : OpenTurnCloseCause) : openTurnClosers log cause = [] := by
  rw [openTurnClosers]
  simp only [h.turn_eq, hturn]

/-- The waiting calls cite positions of the log. -/
theorem Agrees.citesBelow (h : Agrees log trace) (hlength : log.length ≤ Json.maxArrayLength) :
    CitesBelow (scanLog log).pendingCalls log.length := by
  intro entry hmem callSeq hstarted
  obtain ⟨callId, call⟩ := entry
  have hlookup := (OrderedMap.mem_iff_lookup h.tracked.nodup callId call).mp hmem
  have hlt := (h.entry_started callId call callSeq hlookup hstarted).2
  have hmax := Json.maxArrayLength_le
  exact ⟨hlt, by omega⟩

theorem closers_accepted (hdeclared : DeclaredProjections projections) (h : Agrees log trace)
    (hlength : log.length ≤ Json.maxArrayLength)
    (hreplays : ∃ acc, foldSurfaceState log projections = .ok acc) (cause : OpenTurnCloseCause) :
    ∃ acc, foldSurfaceState (log ++ openTurnClosers log cause) projections = .ok acc := by
  cases hturn : trace.openTurn with
  | none => rwa [openTurnClosers_closed h hturn cause, List.append_nil]
  | some turn =>
    obtain ⟨acc, hacc⟩ := hreplays
    obtain ⟨time, -, hclosers⟩ :=
      openTurnClosers_eq h hturn (seq_of_foldSurfaceState hacc) cause
    have hresults := replays_closerResults hdeclared cause turn time
      (scanLog log).pendingCalls (h.citesBelow hlength) ⟨acc, hacc⟩
    have hboundary := replays_boundaryClosers hdeclared cause turn trace.openStep time hresults
    rw [List.length_append, length_closerResults] at hboundary
    rwa [hclosers, ← List.append_assoc]

/-! ## The closers in the trace -/

theorem validateEvent_requireOpenStep (hturn : trace.openTurn = some event.turn)
    (hstep : trace.openStep = some event.step) : requireOpenStep trace event = .ok () := by
  simp [requireOpenStep, hturn, hstep]

theorem traceEvent_closerResult (turn : Json) (time : ℤ) (callId : String) (call : PendingCall)
    {seq : ℕ} (hseq : trace.lastSeq < seq) (hturn : trace.openTurn = some turn)
    (hstep : trace.openStep = some call.step)
    (hstarted : call.callSeq.isSome = true → callId ∈ trace.pendingCalls) :
    traceEvent trace (closerResult cause turn time callId call seq)
      = .ok { trace with
          lastSeq := seq
          pendingCalls := trace.pendingCalls.filter (· ≠ callId) } := by
  have hopen : requireOpenStep trace (closerResult cause turn time callId call seq) = .ok () :=
    validateEvent_requireOpenStep hturn hstep
  have hcall : (closerResult cause turn time callId call seq).resultCallId = callId := rfl
  have happend : (closerResult cause turn time callId call seq).isAppend = true := rfl
  have hknown : ¬(callId ∉ trace.pendingCalls
      ∧ (closerResult cause turn time callId call seq).isSyntheticNotStarted = false) := by
    rintro ⟨hmem, hsynthetic⟩
    cases hcallSeq : call.callSeq with
    | some callSeq => exact hmem (hstarted (by simp [hcallSeq]))
    | none =>
      have htrue : (closerResult cause turn time callId call seq).isSyntheticNotStarted
          = true := by
        simp [SessionEvent.isSyntheticNotStarted, closerResult, closerMessage, closerError,
          hcallSeq, Json.path]
      rw [htrue] at hsynthetic
      cases hsynthetic
  have hlate : ¬((closerResult cause turn time callId call seq).seq : ℤ) ≤ trace.lastSeq :=
    Int.not_le.mpr hseq
  have htype : (closerResult cause turn time callId call seq).type = .toolResult := rfl
  unfold traceEvent validateEvent
  simp only [hlate, if_false, htype, happend, Bool.not_true, Bool.false_eq_true, hopen, ok_bind,
    hcall, hknown, pure_eq]
  rfl

theorem traced_closerResults (turn : Json) (time : ℤ) (calls : OrderedMap String PendingCall) :
    ∀ {trace : SessionTrace} {seq : ℕ}, trace.lastSeq + 1 = seq → calls.keys.Nodup →
    trace.openTurn = some turn →
    (∀ entry ∈ calls, trace.openStep = some entry.2.step
      ∧ (entry.2.callSeq.isSome = true → entry.1 ∈ trace.pendingCalls)) →
    ∃ trace', (closerResults cause turn time calls seq).foldlM traceEvent trace = .ok trace'
      ∧ trace'.lastSeq + 1 = (seq + calls.length : ℕ) ∧ trace'.openTurn = some turn
      ∧ trace'.openStep = trace.openStep := by
  induction calls with
  | nil =>
    intro trace seq hseq _ hturn _
    exact ⟨trace, rfl, by simpa using hseq, hturn, rfl⟩
  | cons entry calls ih =>
    intro trace seq hseq hnodup hturn hentries
    obtain ⟨callId, call⟩ := entry
    obtain ⟨hnew, hnodup⟩ := List.nodup_cons.mp hnodup
    obtain ⟨hstep, hstarted⟩ := hentries (callId, call) List.mem_cons_self
    have hlt : trace.lastSeq < seq := by omega
    have hfirst := traceEvent_closerResult cause turn time callId call hlt hturn hstep hstarted
    have hentries' : ∀ entry ∈ calls, trace.openStep = some entry.2.step
        ∧ (entry.2.callSeq.isSome = true →
          entry.1 ∈ trace.pendingCalls.filter (· ≠ callId)) := by
      intro entry hmem
      obtain ⟨hopen, hpending⟩ := hentries entry (List.mem_cons_of_mem _ hmem)
      refine ⟨hopen, fun hcallSeq => ?_⟩
      have hkey : entry.1 ∈ OrderedMap.keys calls := List.mem_map_of_mem hmem
      have hne : entry.1 ≠ callId := fun heq => hnew (heq ▸ hkey)
      simpa using ⟨hpending hcallSeq, hne⟩
    obtain ⟨trace', hrest, hlast, hturn', hstep'⟩ := @ih
      { trace with
        lastSeq := seq
        pendingCalls := trace.pendingCalls.filter (· ≠ callId) }
      (seq + 1) (by simp) hnodup hturn hentries'
    refine ⟨trace', ?_, ?_, hturn', hstep'⟩
    · rw [closerResults, List.foldlM_cons, hfirst, ok_bind]
      exact hrest
    · rw [hlast, List.length_cons]
      omega

theorem traceEvent_turnEnd (htype : event.type = .turnEnd) (hseq : trace.lastSeq < event.seq)
    (hturn : trace.openTurn = some event.turn) (hstep : trace.openStep = none) :
    traceEvent trace event
      = .ok { trace with
          lastSeq := event.seq, openTurn := none, nextTurn := trace.nextTurn + 1 } := by
  have hlate : ¬(event.seq : ℤ) ≤ trace.lastSeq := Int.not_le.mpr hseq
  unfold traceEvent validateEvent
  simp only [htype, hlate, hturn, hstep, if_false, ne_eq, not_true_eq_false, Option.isSome_none,
    Bool.false_eq_true, pure_eq, ok_bind, SessionTrace.stay, applyTransition]

theorem traceEvent_stepEnd (htype : event.type = .stepEnd) (hseq : trace.lastSeq < event.seq)
    (hturn : trace.openTurn = some event.turn) (hstep : trace.openStep = some event.step) :
    traceEvent trace event
      = .ok { trace with
          lastSeq := event.seq, openStep := none, nextStep := trace.nextStep + 1,
          pendingCalls := [] } := by
  have hlate : ¬(event.seq : ℤ) ≤ trace.lastSeq := Int.not_le.mpr hseq
  unfold traceEvent validateEvent
  simp only [htype, hlate, if_false, validateEvent_requireOpenStep hturn hstep, pure_eq, ok_bind,
    SessionTrace.stay, applyTransition]

theorem traced_boundaryClosers (turn : Json) (time : ℤ) {seq : ℕ} (hseq : trace.lastSeq + 1 = seq)
    (hturn : trace.openTurn = some turn) :
    ∃ trace', (boundaryClosers cause turn trace.openStep time seq).foldlM traceEvent trace
        = .ok trace'
      ∧ trace'.openTurn = none ∧ trace'.openStep = none := by
  have hlt : trace.lastSeq < seq := by omega
  cases hstep : trace.openStep with
  | none =>
    have hend : traceEvent trace (closerTurnEnd cause turn time seq)
        = .ok { trace with
            lastSeq := seq, openTurn := none, nextTurn := trace.nextTurn + 1 } :=
      traceEvent_turnEnd rfl hlt hturn hstep
    refine ⟨{ trace with
      lastSeq := seq, openTurn := none, nextTurn := trace.nextTurn + 1 }, ?_, rfl, hstep⟩
    rw [boundaryClosers, List.foldlM_cons, hend, ok_bind, List.foldlM_nil, pure_eq]
  | some step =>
    have hstepEnd : traceEvent trace (closerStepEnd turn step time seq)
        = .ok { trace with
            lastSeq := seq, openStep := none, nextStep := trace.nextStep + 1,
            pendingCalls := [] } :=
      traceEvent_stepEnd rfl hlt hturn hstep
    have hend : traceEvent { trace with
            lastSeq := seq, openStep := none, nextStep := trace.nextStep + 1,
            pendingCalls := [] } (closerTurnEnd cause turn time (seq + 1))
        = .ok { trace with
            lastSeq := (seq + 1 : ℕ), openTurn := none, openStep := none,
            nextTurn := trace.nextTurn + 1, nextStep := trace.nextStep + 1,
            pendingCalls := [] } :=
      traceEvent_turnEnd rfl (Int.ofNat_lt.mpr (Nat.lt_succ_self seq)) hturn rfl
    refine ⟨{ trace with
      lastSeq := (seq + 1 : ℕ), openTurn := none, openStep := none,
      nextTurn := trace.nextTurn + 1, nextStep := trace.nextStep + 1,
      pendingCalls := [] }, ?_, rfl, rfl⟩
    rw [boundaryClosers, List.foldlM_cons, hstepEnd, ok_bind, List.foldlM_cons]
    exact congrArg (· >>= fun t => ([] : List SessionEvent).foldlM traceEvent t) hend

theorem closers_traced (htrace : runTrace log = .ok trace) (h : Agrees log trace)
    (hcontiguous : ∀ i (hi : i < log.length), log[i].seq = i) (cause : OpenTurnCloseCause) :
    ∃ trace', runTrace (log ++ openTurnClosers log cause) = .ok trace'
      ∧ trace'.openTurn = none ∧ trace'.openStep = none := by
  cases hturn : trace.openTurn with
  | none =>
    rw [openTurnClosers_closed h hturn cause, List.append_nil]
    exact ⟨trace, htrace, hturn, h.step_in_turn hturn⟩
  | some turn =>
    obtain ⟨time, -, hclosers⟩ := openTurnClosers_eq h hturn hcontiguous cause
    have hentries : ∀ entry ∈ (scanLog log).pendingCalls,
        trace.openStep = some entry.2.step
        ∧ (entry.2.callSeq.isSome = true → entry.1 ∈ trace.pendingCalls) := by
      intro entry hmem
      obtain ⟨callId, call⟩ := entry
      have hlookup := (OrderedMap.mem_iff_lookup h.tracked.nodup callId call).mp hmem
      refine ⟨h.entry_step callId call hlookup, fun hstarted => ?_⟩
      obtain ⟨callSeq, hcallSeq⟩ := Option.isSome_iff_exists.mp hstarted
      exact (h.entry_started callId call callSeq hlookup hcallSeq).1
    obtain ⟨trace₁, hresults, hlast, hturn₁, hstep₁⟩ := traced_closerResults cause turn time _
      h.lastSeq_eq h.tracked.nodup hturn hentries
    obtain ⟨trace₂, hboundary, hturn₂, hstep₂⟩ :=
      traced_boundaryClosers cause turn time hlast hturn₁
    refine ⟨trace₂, ?_, hturn₂, hstep₂⟩
    rw [runTrace] at htrace
    rw [hclosers, runTrace, List.foldlM_append, htrace, ok_bind, List.foldlM_append, hresults,
      ok_bind, ← hstep₁]
    exact hboundary

/-! ## Which calls are answered -/

theorem results_closerResults (turn : Json) (time : ℤ) (calls : OrderedMap String PendingCall)
    (seq : ℕ) :
    (closerResults cause turn time calls seq).map SessionEvent.resultCallId
      = OrderedMap.keys calls := by
  induction calls generalizing seq with
  | nil => rfl
  | cons entry calls ih => exact congrArg (_ :: ·) (ih (seq + 1))

/-- The synthetic results among closers. -/
def syntheticResults (closers : List SessionEvent) : List SessionEvent :=
  closers.filter fun event => event.type == .toolResult

theorem syntheticResults_closerResults (turn : Json) (time : ℤ)
    (calls : OrderedMap String PendingCall) (seq : ℕ) :
    syntheticResults (closerResults cause turn time calls seq)
      = closerResults cause turn time calls seq := by
  rw [syntheticResults, List.filter_eq_self]
  induction calls generalizing seq with
  | nil => exact fun event h => by cases h
  | cons entry calls ih =>
    intro event hmem
    rcases List.mem_cons.mp hmem with rfl | hmem
    · rfl
    · exact ih (seq + 1) event hmem

theorem syntheticResults_boundaryClosers (turn : Json) (openStep : Option Json) (time : ℤ) (seq : ℕ) :
    syntheticResults (boundaryClosers cause turn openStep time seq) = [] := by
  cases openStep <;> rfl

/-- What balancing a log means: the closers are accepted by the surface and the invariant, they
close the turn and the step, a closed log needs none, and the synthetic results come first and
answer each unanswered call of the open step exactly once, in block order. -/
structure Balances (projections : List SessionMessageProjection) (log closers : List SessionEvent) :
    Prop where
  replays : ∃ acc, foldSurfaceState (log ++ closers) projections = .ok acc
  traced : ∃ trace, runTrace (log ++ closers) = .ok trace
    ∧ trace.openTurn = none ∧ trace.openStep = none
  closed : ∀ trace, runTrace log = .ok trace → trace.openTurn = none → closers = []
  results_first : syntheticResults closers <+: closers
  answers : Tracked ((syntheticResults closers).map SessionEvent.resultCallId)
    (unansweredCalls log)

/-- The synthetic results answer the waiting calls of the scan, before any boundary. -/
theorem syntheticResults_openTurnClosers (h : Agrees log trace)
    (hcontiguous : ∀ i (hi : i < log.length), log[i].seq = i) (cause : OpenTurnCloseCause) :
    syntheticResults (openTurnClosers log cause) <+: openTurnClosers log cause ∧
    (syntheticResults (openTurnClosers log cause)).map SessionEvent.resultCallId
      = OrderedMap.keys (scanLog log).pendingCalls := by
  cases hturn : trace.openTurn with
  | none =>
    rw [openTurnClosers_closed h hturn cause, h.pending_nil (h.step_in_turn hturn)]
    exact ⟨List.prefix_refl _, rfl⟩
  | some turn =>
    obtain ⟨time, -, hclosers⟩ := openTurnClosers_eq h hturn hcontiguous cause
    have hresults : syntheticResults (openTurnClosers log cause)
        = closerResults cause turn time (scanLog log).pendingCalls log.length := by
      rw [hclosers, syntheticResults, List.filter_append, ← syntheticResults,
        ← syntheticResults, syntheticResults_closerResults, syntheticResults_boundaryClosers,
        List.append_nil]
    refine ⟨?_, ?_⟩
    · rw [hresults, hclosers]
      exact List.prefix_append _ _
    · rw [hresults, results_closerResults]

/-- Repair balances an accepted log exactly when each unanswered call of the open step has a
tool-call block that no `tool/result` for it follows, rewrites included. -/
theorem balances_iff (hdeclared : DeclaredProjections projections) {log : List SessionEvent}
    (hlength : log.length ≤ Json.maxArrayLength)
    (hsurface : ∃ acc, foldSurfaceState log projections = .ok acc)
    (htrace : ∃ trace, runTrace log = .ok trace) (cause : OpenTurnCloseCause) :
    Balances projections log (openTurnClosers log cause) ↔
      ∀ callId ∈ unansweredCalls log, callId ∈ untouchedCalls log := by
  obtain ⟨acc, hacc⟩ := hsurface
  obtain ⟨trace, htrace⟩ := htrace
  have hagrees := agrees_of_runTrace hacc htrace
  have hcontiguous := seq_of_foldSurfaceState hacc
  obtain ⟨hfirst, hresults⟩ := syntheticResults_openTurnClosers hagrees hcontiguous cause
  constructor
  · intro h callId hcall
    have hkey := h.answers.complete callId hcall
    rw [hresults] at hkey
    exact hagrees.tracked.sublist.subset hkey
  · intro huntouched
    refine ⟨closers_accepted hdeclared hagrees hlength ⟨acc, hacc⟩ cause,
      closers_traced htrace hagrees hcontiguous cause, ?_, hfirst, ?_⟩
    · intro trace' htrace' hturn
      rw [htrace] at htrace'
      cases htrace'
      exact openTurnClosers_closed hagrees hturn cause
    · rw [hresults]
      exact ⟨hagrees.tracked.nodup, hagrees.tracked.sublist.trans (untouchedCalls_sublist log),
        fun callId hcall => hagrees.tracked.complete callId (huntouched callId hcall)⟩

/-- A step boundary of turn 1. -/
private def boundaryAt (type : EventType) (step seq : ℕ) : SessionEvent where
  type := type
  seq := seq
  time := 0
  data := .obj [("turn", .nat 1), ("step", .nat step)]

/-- An assistant message of turn 1 that asks for call `a`. -/
private def askAt (step seq : ℕ) : SessionEvent where
  type := .assistantMessage
  seq := seq
  time := 0
  data := .obj [("turn", .nat 1), ("step", .nat step), ("stream", .arr []),
    ("message", .obj [("id", .str "m"), ("role", .str "assistant"),
      ("source", .obj [("kind", .str "model"), ("provider", .str "p"), ("model", .str "m")]),
      ("content", .arr [.obj [("type", .str "tool-call"), ("id", .str "a"),
        ("name", .str "read"), ("input", .obj [])]])])]
  surfaceOp := some (.str "append")

/-- The recorded start of call `a` in step 1. -/
private def startAt (seq : ℕ) : SessionEvent where
  type := .toolCall
  seq := seq
  time := 0
  data := .obj [("turn", .nat 1), ("step", .nat 1), ("callId", .str "a"), ("name", .str "read")]

/-- The result of call `a` in step 1, with its content and surface metadata. -/
private def answerAt (seq : ℕ) (text : String) (op : Json) (sources : Option Json) :
    SessionEvent where
  type := .toolResult
  seq := seq
  time := 0
  data := .obj [("turn", .nat 1), ("step", .nat 1),
    ("message", .obj [("id", .str "r"), ("role", .str "tool"), ("toolCallId", .str "a"),
      ("source", .obj [("kind", .str "tool"), ("callId", .str "a")]),
      ("content", .arr [.obj [("type", .str "text"), ("text", .str text)]])])]
  surfaceOp := some op
  sourceEventSeqs := sources

/-- Step 1 asks for call `a` and answers it; step 2 asks for a call `a` again, and the old
result is then rewritten. -/
def rewrittenRecurrence : List SessionEvent :=
  [boundaryAt .turnStart 1 0, boundaryAt .stepStart 1 1, askAt 1 2, startAt 3,
    answerAt 4 "full" (.str "append") none, boundaryAt .stepEnd 1 5, boundaryAt .stepStart 2 6,
    askAt 2 7, answerAt 8 "cut" (.obj [("op", .str "replace"), ("startSeq", .nat 4),
      ("endSeq", .nat 4)]) (some (.arr [.nat 4]))]

/-- The rewrite of the old result drops the recurring call: it stays unanswered. -/
theorem rewrittenRecurrence_unbalanced :
    (∃ acc, foldSurfaceState rewrittenRecurrence [] = .ok acc)
    ∧ (∃ trace, runTrace rewrittenRecurrence = .ok trace)
    ∧ unansweredCalls rewrittenRecurrence = ["a"]
    ∧ ∀ cause, ¬Balances [] rewrittenRecurrence (openTurnClosers rewrittenRecurrence cause) := by
  refine ⟨⟨_, rfl⟩, ⟨_, rfl⟩, by decide, ?_⟩
  intro cause h
  have hcall : "a" ∈ unansweredCalls rewrittenRecurrence := by decide
  have hanswered := h.answers.complete "a" hcall
  have hnone : syntheticResults (openTurnClosers rewrittenRecurrence cause) = [] := by
    cases cause <;> decide
  rw [hnone] at hanswered
  cases hanswered

/-- A crash right after a recorded call start. -/
def interruptedCall : List SessionEvent :=
  [boundaryAt .turnStart 1 0, boundaryAt .stepStart 1 1, askAt 1 2, startAt 3]

/-- Its repair balances. -/
theorem balances_interruptedCall :
    Balances [] interruptedCall (openTurnClosers interruptedCall .interrupted) ↔
      ∀ callId ∈ unansweredCalls interruptedCall, callId ∈ untouchedCalls interruptedCall :=
  balances_iff (fun _ h => by cases h) (by decide) ⟨_, rfl⟩ ⟨_, rfl⟩ .interrupted

end TianmaCoder
