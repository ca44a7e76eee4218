import TianmaCoder.Gateway.StreamMux

/-!
# One logical stream

What one stream tells its client, whatever its source, its uplink and its controller do: the
items of its source in order, and then what its verdict says, once.

## Main definitions

* `Gateway.StreamMux.Told` — the invariant of one stream.

## Main results

* `Gateway.StreamMux.Told.settle`, `.pull`, `.delivered` — every turn of a pump keeps it.
-/

namespace TianmaCoder

namespace Gateway

namespace StreamMux

variable {α υ ε ρ φ : Type}

/-- The frames that tell a verdict; nothing where the failure has no form on the wire. -/
def Verdict.frames (carrier : Carrier υ ε ρ φ) : Verdict ε ρ → List (ServerMessage υ φ)
  | .ended => [.end]
  | .failed e => ((carrier.failure e).map .error).toList
  | .silent => []

def Reason.verdict (r : Reason ρ) : Verdict ε ρ := if r.isRemote then .failed (.reason r) else .silent

def Pump.isAwaiting : Pump ε ρ → Bool
  | .sending | .ending | .failing => true
  | _ => false

def Pump.isActive : Pump ε ρ → Bool
  | .opening | .pulling | .sending => true
  | _ => false

namespace ActiveStream

def terminal (carrier : Carrier υ ε ρ φ) (st : ActiveStream α υ ε ρ φ) :
    List (ServerMessage υ φ) :=
  match st.verdict with
  | some v => v.frames carrier
  | none => []

/-- The items `vs` are all that the source has yielded, but for a last one that cannot be sent
and fails the stream. -/
def Yields (carrier : Carrier υ ε ρ φ) (st : ActiveStream α υ ε ρ φ) (vs : List υ) : Prop :=
  st.yielded = vs ∨ ∃ v, st.yielded = vs ++ [v] ∧ carrier.serializable v = false ∧
    st.verdict ≠ some .ended

end ActiveStream

/-- What holds of a stream; `isOpen` while the socket is open. -/
structure Told (carrier : Carrier υ ε ρ φ) (isOpen : Bool) (st : ActiveStream α υ ε ρ φ) :
    Prop where
  /-- The messages are the items of the source and then the frames of the verdict. -/
  messages : ∃ vs t, st.messages = vs.map .item ++ t ∧
    (t = [] ∨ t = st.terminal carrier) ∧ (isOpen = true → t = st.terminal carrier) ∧
    st.Yields carrier vs
  active : st.pump.isActive = true → st.verdict = none ∧ st.messages = st.yielded.map .item
  unwinding : ∀ e, st.pump = .unwinding e → st.verdict = none
  settled : st.pump.isActive = false → (∀ e, st.pump ≠ .unwinding e) → st.verdict.isSome
  /-- A settled stream takes no more of its uplink. -/
  stopped : st.verdict.isSome → st.inbox.failure.isSome
  /-- Only a cancelled stream is silent. -/
  silent : st.verdict = some .silent → ∃ r, st.abort = some r ∧ r.isRemote = false
  /-- A violation decides the verdict, unless the opener has aborted the stream before. -/
  violated : ∀ v, st.inbox.failure = some (.violation v) → ∃ r, st.abort = some r ∧
    (r = .violation v ∨ r.byHost = true) ∧ ∀ w, st.verdict = some w → w = r.verdict
  /-- The connection aborts a stream only with its uplink failed. -/
  aborted : ∀ r, st.abort = some r → r.byHost = true ∨ st.inbox.failure.isSome
  /-- A failure that has no form on the wire closes the socket. -/
  mapped : isOpen = true → ∀ e, st.verdict = some (.failed e) → (carrier.failure e).isSome
  uplink : st.inbox.Lossless
  limit : st.inbox.maxBytes = carrier.streamInboxBytes

/-- What a turn of a pump keeps. -/
structure Turned (carrier : Carrier υ ε ρ φ) (isOpen : Bool) (st : ActiveStream α υ ε ρ φ)
    (t : Turn α υ ε ρ φ) : Prop where
  told : Told carrier (isOpen && !t.closes) t.stream
  messages : t.stream.messages = st.messages ++ t.message.toList
  awaiting : t.stream.pump.isAwaiting = t.message.isSome
  streamId : t.stream.streamId = st.streamId
  listed : t.stream.listed = st.listed

section

variable {carrier : Carrier υ ε ρ φ} {isOpen : Bool} {st : ActiveStream α υ ε ρ φ}

theorem Told.mono (h : Told carrier isOpen st) {isOpen' : Bool}
    (hopen : isOpen' = true → isOpen = true) : Told carrier isOpen' st := by
  obtain ⟨vs, t, hmessages, ht, hall, hyields⟩ := h.messages
  exact ⟨⟨vs, t, hmessages, ht, fun ho => hall (hopen ho), hyields⟩, h.active, h.unwinding,
    h.settled, h.stopped, h.silent, h.violated, h.aborted, fun ho => h.mapped (hopen ho), h.uplink,
    h.limit⟩

/-- Before the verdict only items are sent. -/
theorem Told.items (h : Told carrier isOpen st) (hnone : st.verdict = none) :
    ∃ vs, st.messages = vs.map .item ∧ st.Yields carrier vs := by
  obtain ⟨vs, t, hmessages, ht, -, hyields⟩ := h.messages
  have hterminal : st.terminal carrier = [] := by simp [ActiveStream.terminal, hnone]
  rw [hterminal, or_self] at ht
  subst t
  exact ⟨vs, by rw [hmessages, List.append_nil], hyields⟩

theorem judge_of_abort {r : Reason ρ} (h : st.abort = some r) (outcome : Option (StreamError ε ρ)) :
    st.judge outcome = r.verdict := by
  simp only [ActiveStream.judge, h]
  rfl

variable {outcome : Option (StreamError ε ρ)}

theorem judge_eq_ended (h : st.judge outcome = .ended) : outcome = none := by
  unfold ActiveStream.judge at h
  cases habort : st.abort with
  | some r =>
    rw [habort] at h
    cases hremote : r.isRemote <;> simp [hremote] at h
  | none =>
    rw [habort] at h
    cases outcome with
    | none => rfl
    | some e => cases h

theorem judge_eq_silent (h : st.judge outcome = .silent) :
    ∃ r, st.abort = some r ∧ r.isRemote = false := by
  unfold ActiveStream.judge at h
  cases habort : st.abort with
  | some r =>
    rw [habort] at h
    cases hremote : r.isRemote with
    | false => exact ⟨r, rfl, hremote⟩
    | true => simp [hremote] at h
  | none =>
    rw [habort] at h
    cases outcome <;> cases h

theorem failure_fail_isSome (b : UplinkInbox α) (f : InboxFailure) : (b.fail f).failure.isSome := by
  unfold UplinkInbox.fail
  split
  · assumption
  · rfl

theorem maxBytes_fail (b : UplinkInbox α) (f : InboxFailure) : (b.fail f).maxBytes = b.maxBytes := by
  unfold UplinkInbox.fail
  split <;> rfl

theorem failure_fail {b : UplinkInbox α} {f g : InboxFailure} (h : (b.fail f).failure = some g)
    (hne : g ≠ f) : b.failure = some g := by
  unfold UplinkInbox.fail at h
  split at h
  · exact h
  · exact absurd (Option.some.inj h).symm hne

variable {pump : Pump ε ρ}

/-- The stream once its downlink has settled and it has told `t` of its verdict. -/
theorem Told.judged (h : Told carrier isOpen st) (hnone : st.verdict = none)
    (hitems : outcome = none → st.messages = st.yielded.map .item) (hactive : pump.isActive = false)
    (hunwinding : ∀ e, pump ≠ .unwinding e) {isOpen' : Bool} {t : List (ServerMessage υ φ)}
    (ht : t = [] ∨ t = (st.judge outcome).frames carrier)
    (hall : isOpen' = true → t = (st.judge outcome).frames carrier)
    (hmapped : isOpen' = true → ∀ e, st.judge outcome = .failed e → (carrier.failure e).isSome) :
    Told carrier isOpen' { st with
      inbox := st.inbox.fail (.error "Remote stream ended")
      verdict := some (st.judge outcome)
      messages := st.messages ++ t
      pump := pump } where
  messages := by
    by_cases hended : st.judge outcome = .ended
    · refine ⟨st.yielded, t, ?_, ht, hall, .inl rfl⟩
      simp only [hitems (judge_eq_ended hended)]
    · obtain ⟨vs, hmessages, hyields⟩ := h.items hnone
      refine ⟨vs, t, by simp only [hmessages], ht, hall, ?_⟩
      rcases hyields with heq | ⟨v, heq, hv, -⟩
      · exact .inl heq
      · refine .inr ⟨v, heq, hv, fun hverdict => ?_⟩
        exact hended (Option.some.inj hverdict)
  active := by
    intro hpump
    rw [hactive] at hpump
    cases hpump
  unwinding := by
    intro e hpump
    exact absurd hpump (hunwinding e)
  settled := fun _ _ => rfl
  stopped := fun _ => failure_fail_isSome _ _
  silent := fun hsilent => judge_eq_silent (Option.some.inj hsilent)
  violated := by
    intro v hv
    have hold := failure_fail hv (by simp)
    obtain ⟨r, hr, hby, -⟩ := h.violated v hold
    refine ⟨r, hr, hby, fun w hw => ?_⟩
    rw [← Option.some.inj hw, judge_of_abort hr]
  aborted := fun _ _ => .inr (failure_fail_isSome _ _)
  mapped := fun hopen e he => hmapped hopen e (Option.some.inj he)
  uplink := h.uplink.fail _
  limit := (maxBytes_fail _ _).trans h.limit

/-- A turn that sends nothing. -/
theorem Told.quiet {st' : ActiveStream α υ ε ρ φ} (h : Told carrier isOpen st')
    (hmessages : st'.messages = st.messages) (hpump : st'.pump.isAwaiting = false)
    (hid : st'.streamId = st.streamId) (hlisted : st'.listed = st.listed) :
    Turned carrier isOpen st st'.quiet :=
  ⟨h.mono fun hopen => (Bool.and_eq_true_iff.mp hopen).1, hmessages.trans (List.append_nil _).symm, hpump, hid, hlisted⟩

theorem Told.sends {st' : ActiveStream α υ ε ρ φ} {m : ServerMessage υ φ}
    (h : Told carrier isOpen { st' with messages := st'.messages ++ [m], pump := pump })
    (hmessages : st'.messages = st.messages) (hpump : pump.isAwaiting = true)
    (hid : st'.streamId = st.streamId) (hlisted : st'.listed = st.listed) :
    Turned carrier isOpen st (st'.sends m pump) :=
  ⟨h.mono fun hopen => (Bool.and_eq_true_iff.mp hopen).1, congrArg (· ++ [m]) hmessages, hpump, hid, hlisted⟩

theorem Told.settle (h : Told carrier isOpen st) (hnone : st.verdict = none)
    (hitems : outcome = none → st.messages = st.yielded.map .item) :
    Turned carrier isOpen st (st.settle carrier isOpen outcome) := by
  have hdone : ∀ isOpen' : Bool, (isOpen' = true → st.judge outcome = .silent) →
      Told carrier isOpen' { st with
        inbox := st.inbox.fail (.error "Remote stream ended")
        verdict := some (st.judge outcome)
        pump := .done } := by
    intro isOpen' hsilent
    have hjudged : Told carrier isOpen' { st with
        inbox := st.inbox.fail (.error "Remote stream ended")
        verdict := some (st.judge outcome)
        messages := st.messages ++ []
        pump := .done } :=
      h.judged hnone hitems rfl (fun e he => by cases he) (.inl rfl)
        (fun hopen => by rw [hsilent hopen]; rfl)
        (fun hopen e he => by rw [hsilent hopen] at he; cases he)
    rw [List.append_nil] at hjudged
    exact hjudged
  have htold : ∀ (pump : Pump ε ρ) (m : ServerMessage υ φ), pump.isActive = false →
      (∀ e, pump ≠ .unwinding e) → (st.judge outcome).frames carrier = [m] →
      (∀ e, st.judge outcome = .failed e → (carrier.failure e).isSome) → Told carrier isOpen { st with
        inbox := st.inbox.fail (.error "Remote stream ended")
        verdict := some (st.judge outcome)
        messages := st.messages ++ [m]
        pump := pump } := by
    intro pump m hactive hunwinding hm hmapped
    exact h.judged hnone hitems hactive hunwinding (.inr hm.symm) (fun _ => hm.symm)
      (fun _ => hmapped)
  unfold ActiveStream.settle
  cases hjudge : st.judge outcome with
  | silent =>
    rw [hjudge] at hdone
    exact (hdone isOpen fun _ => rfl).quiet rfl rfl rfl rfl
  | ended =>
    rw [hjudge] at htold
    exact (htold .ending .end rfl (fun e he => by cases he) rfl (fun e he => by cases he)).sends
      rfl rfl rfl rfl
  | failed e =>
    rw [hjudge] at hdone htold
    simp only [ActiveStream.sendFailure]
    cases isOpen with
    | false => exact (hdone false fun hopen => by cases hopen).quiet rfl rfl rfl rfl
    | true =>
      rw [if_pos rfl]
      cases hwire : carrier.failure e with
      | none =>
        have hsilent := hdone false fun hopen => by cases hopen
        exact ⟨hsilent, (List.append_nil _).symm, rfl, rfl, rfl⟩
      | some wire =>
        have hframes : (Verdict.failed e : Verdict ε ρ).frames carrier =
            [(.error wire : ServerMessage υ φ)] := by
          simp [Verdict.frames, hwire]
        have hmapped : ∀ e', (Verdict.failed e : Verdict ε ρ) = .failed e' →
            (carrier.failure e').isSome := by
          intro e' he'
          cases he'
          rw [hwire]
          rfl
        exact (htold .failing (.error wire) rfl (fun e he => by cases he) hframes hmapped).sends
          rfl rfl rfl rfl

/-- Only the pump of a stream moves. -/
theorem Told.move (h : Told carrier isOpen st)
    (hactive : pump.isActive = true → st.verdict = none ∧ st.messages = st.yielded.map .item)
    (hunwinding : ∀ e, pump = .unwinding e → st.verdict = none)
    (hsettled : pump.isActive = false → (∀ e, pump ≠ .unwinding e) → st.verdict.isSome) :
    Told carrier isOpen { st with pump := pump } :=
  ⟨h.messages, hactive, hunwinding, hsettled, h.stopped, h.silent, h.violated, h.aborted, h.mapped, h.uplink, h.limit⟩

theorem isActive_of_isOpening (h : pump.isOpening = true) : pump.isActive = true := by
  cases pump <;> first | rfl | cases h

theorem isActive_of_isPulling (h : pump.isPulling = true) : pump.isActive = true := by
  cases pump <;> first | rfl | cases h

theorem Told.opened (h : Told carrier isOpen st) (hpump : st.pump.isOpening = true) :
    Turned carrier isOpen st (ActiveStream.quiet { st with pump := .pulling }) := by
  have hactive := h.active (isActive_of_isOpening hpump)
  have hmoved : Told carrier isOpen { st with pump := .pulling } :=
    h.move (fun _ => hactive) (fun _ hp => by cases hp) (fun hp => by cases hp)
  exact hmoved.quiet rfl rfl rfl rfl

theorem pull_of_serializable {v : υ} (hv : carrier.serializable v = true) :
    st.pull carrier v =
      ActiveStream.sends { st with yielded := st.yielded ++ [v] } (.item v) .sending := by
  rw [ActiveStream.pull, if_pos hv]

theorem pull_of_not_serializable {v : υ} (hv : carrier.serializable v = false) :
    st.pull carrier v = ActiveStream.quiet { st with
      yielded := st.yielded ++ [v]
      pump := .unwinding (.error notSerializable) } := by
  rw [ActiveStream.pull, if_neg (by simp [hv])]

section

variable (h : Told carrier isOpen st)
include h

/-- The source yields an item. -/
theorem Told.pull (hpump : st.pump.isPulling = true) (v : υ) :
    Turned carrier isOpen st (st.pull carrier v) := by
  obtain ⟨hnone, hmessages⟩ := h.active (isActive_of_isPulling hpump)
  have hterminal : ∀ st' : ActiveStream α υ ε ρ φ, st'.verdict = st.verdict →
      st'.terminal carrier = [] := by
    intro st' hsame
    simp [ActiveStream.terminal, hsame, hnone]
  cases hv : carrier.serializable v with
  | true =>
    rw [pull_of_serializable hv]
    refine Told.sends ?_ rfl rfl rfl rfl
    have hnext : st.messages ++ [.item v] = (st.yielded ++ [v]).map .item := by
      rw [hmessages, List.map_append, List.map_singleton]
    refine ⟨⟨st.yielded ++ [v], [], ?_, .inl rfl, fun _ => (hterminal _ rfl).symm, .inl rfl⟩,
      fun _ => ⟨hnone, hnext⟩, (fun _ hp => by cases hp), (fun hp => by cases hp), h.stopped,
      h.silent, h.violated, h.aborted, h.mapped, h.uplink, h.limit⟩
    rw [List.append_nil]
    exact hnext
  | false =>
    rw [pull_of_not_serializable hv]
    refine Told.quiet ?_ rfl rfl rfl rfl
    refine ⟨⟨st.yielded, [], ?_, .inl rfl, fun _ => (hterminal _ rfl).symm, ?_⟩,
      (fun hp => by cases hp), fun _ _ => hnone, fun _ hp => absurd rfl (hp _), h.stopped,
      h.silent, h.violated, h.aborted, h.mapped, h.uplink, h.limit⟩
    · rw [List.append_nil]
      exact hmessages
    · refine .inr ⟨v, rfl, hv, fun hended => ?_⟩
      have hverdict : st.verdict = some .ended := hended
      rw [hnone] at hverdict
      cases hverdict

/-- A settled stream is done. -/
theorem Told.ends (hactive : st.pump.isActive = false)
    (hunwinding : ∀ e, st.pump ≠ .unwinding e) : Told carrier isOpen { st with pump := .done } :=
  h.move (fun hp => by cases hp) (fun _ hp => by cases hp)
    (fun _ _ => h.settled hactive hunwinding)

/-- The awaited message was written, or the socket was closed. -/
theorem Told.delivered {written : Bool}
    (hlost : written = false → isOpen = false) :
    Turned carrier isOpen st (st.delivered carrier isOpen written) ∨
      st.pump.isAwaiting = false := by
  unfold ActiveStream.delivered
  cases hpump : st.pump with
  | sending =>
    have hactive := h.active (by rw [hpump]; rfl)
    left
    cases written with
    | true =>
      have hmoved : Told carrier isOpen { st with pump := .pulling } :=
        h.move (fun _ => hactive) (fun _ hp => by cases hp) (fun hp => by cases hp)
      exact hmoved.quiet rfl rfl rfl rfl
    | false =>
      have hmoved : Told carrier isOpen
          { st with pump := .unwinding (.error socketIsClosed) } :=
        h.move (fun hp => by cases hp) (fun _ _ => hactive.1) (fun _ hp => absurd rfl (hp _))
      exact hmoved.quiet rfl rfl rfl rfl
  | ending =>
    have hdone := h.ends (by rw [hpump]; rfl) (by simp [hpump])
    left
    cases written with
    | true => exact hdone.quiet rfl rfl rfl rfl
    | false =>
      cases hlost rfl
      exact hdone.quiet rfl rfl rfl rfl
  | failing =>
    have hdone := h.ends (by rw [hpump]; rfl) (by simp [hpump])
    left
    cases written with
    | true => exact hdone.quiet rfl rfl rfl rfl
    | false =>
      exact ⟨hdone.mono fun hopen => (Bool.and_eq_true_iff.mp hopen).1,
        (List.append_nil _).symm, rfl, rfl, rfl⟩
  | opening => exact .inr rfl
  | pulling => exact .inr rfl
  | unwinding e => exact .inr rfl
  | done => exact .inr rfl

/-- The controller of a stream is aborted. -/
theorem Told.abortWith {r : Reason ρ}
    (hr : r.byHost = true ∨ st.inbox.failure.isSome) : Told carrier isOpen (st.abortWith r) := by
  refine ⟨h.messages, h.active, h.unwinding, h.settled, h.stopped, ?_, ?_, ?_, h.mapped,
    h.uplink, h.limit⟩
  · intro hsilent
    obtain ⟨r', hr', hremote⟩ := h.silent hsilent
    exact ⟨r', by simp [ActiveStream.abortWith, hr'], hremote⟩
  · intro v hv
    obtain ⟨r', hr', hrest⟩ := h.violated v hv
    exact ⟨r', by simp [ActiveStream.abortWith, hr'], hrest⟩
  · intro r' hr'
    cases habort : st.abort with
    | none =>
      simp only [ActiveStream.abortWith, habort, Option.none_or, Option.some.injEq] at hr'
      subst r'
      exact hr
    | some r₀ =>
      simp only [ActiveStream.abortWith, habort, Option.some_or, Option.some.injEq] at hr'
      subst r'
      exact h.aborted r₀ habort

theorem Told.moveInbox {inbox : UplinkInbox α}
    (hlossless : inbox.Lossless) (hfailure : inbox.failure = st.inbox.failure)
    (hlimit : inbox.maxBytes = st.inbox.maxBytes) : Told carrier isOpen { st with inbox := inbox } := by
  refine ⟨h.messages, h.active, h.unwinding, h.settled, ?_, h.silent, ?_, ?_, h.mapped,
    hlossless, hlimit.trans h.limit⟩
  · intro hverdict
    rw [hfailure]
    exact h.stopped hverdict
  · intro v hv
    rw [hfailure] at hv
    exact h.violated v hv
  · intro r hr
    rw [hfailure]
    exact h.aborted r hr

/-- The uplink of a stream fails with a plain error. -/
theorem Told.failInbox (message : String) :
    Told carrier isOpen { st with inbox := st.inbox.fail (.error message) } := by
  refine ⟨h.messages, h.active, h.unwinding, h.settled, fun _ => failure_fail_isSome _ _, h.silent,
    ?_, fun _ _ => .inr (failure_fail_isSome _ _), h.mapped, h.uplink.fail _,
    (maxBytes_fail _ _).trans h.limit⟩
  intro v hv
  exact h.violated v (failure_fail hv (by simp))

/-- The stream is cancelled. -/
theorem Told.stop (message : String) :
    Told carrier isOpen (st.stop message) :=
  (h.failInbox message).abortWith (.inr (failure_fail_isSome _ _))

/-- A violation fails the uplink and aborts the stream. -/
theorem Told.violate (hopen : st.inbox.failure = none)
    (v : Violation) : Told carrier isOpen { st.abortWith (.violation v) with
      inbox := st.inbox.fail (.violation v) } := by
  have hverdict : st.verdict = none := by
    by_contra hsome
    have hfailed := h.stopped (Option.isSome_iff_ne_none.mpr hsome)
    rw [hopen] at hfailed
    cases hfailed
  refine ⟨h.messages, h.active, h.unwinding, h.settled, fun _ => failure_fail_isSome _ _, ?_, ?_,
    fun _ _ => .inr (failure_fail_isSome _ _), h.mapped, h.uplink.fail _,
    (maxBytes_fail _ _).trans h.limit⟩
  · intro hsilent
    rw [show st.verdict = some .silent from hsilent] at hverdict
    cases hverdict
  · intro v' hv'
    have hnew : v' = v := by
      have hfailure : (st.inbox.fail (.violation v)).failure = some (.violation v) := by
        simp [UplinkInbox.fail, hopen, UplinkInbox.signal]
      rw [show (st.inbox.fail (.violation v)).failure = some (.violation v') from hv'] at hfailure
      cases hfailure
      rfl
    subst v'
    cases habort : st.abort with
    | none =>
      refine ⟨.violation v, by simp [ActiveStream.abortWith, habort], .inl rfl, fun w hw => ?_⟩
      rw [show st.verdict = some w from hw] at hverdict
      cases hverdict
    | some r =>
      refine ⟨r, by simp [ActiveStream.abortWith, habort], .inr ?_, fun w hw => ?_⟩
      · rcases h.aborted r habort with hby | hfailed
        · exact hby
        · rw [hopen] at hfailed
          cases hfailed
      · rw [show st.verdict = some w from hw] at hverdict
        cases hverdict

/-- An uplink item arrives. -/
theorem Told.push (value : α) (frameBytes : ℕ) :
    Told carrier isOpen (st.push value frameBytes) := by
  have hlossless := h.uplink.push value frameBytes
  by_cases hstopped : st.inbox.failure.isSome ∨ st.inbox.closed = true
  · have hpush := UplinkInbox.push_of_stopped (v := value) (n := frameBytes) hstopped
    simp only [ActiveStream.push, hpush]
    exact h
  · have hopen : st.inbox.failure = none ∧ st.inbox.closed = false := by simpa using hstopped
    by_cases hviolation : st.inbox.ended = true ∨ st.inbox.maxBytes < st.inbox.bytes + frameBytes
    · obtain ⟨v, hpush⟩ := UplinkInbox.push_of_violation (v := value) hopen hviolation
      simp only [ActiveStream.push, hpush]
      exact h.violate hopen.1 v
    · rw [not_or, Bool.not_eq_true, Nat.not_lt] at hviolation
      have hpush := UplinkInbox.push_of_room (v := value) hopen hviolation.1 hviolation.2
      rw [hpush] at hlossless
      simp only [ActiveStream.push, hpush]
      exact h.moveInbox hlossless rfl rfl

end

theorem failure_poll (b : UplinkInbox α) (id : ℕ) :
    (b.poll id).failure = b.failure ∧ (b.poll id).maxBytes = b.maxBytes := by
  unfold UplinkInbox.poll
  split
  · exact ⟨rfl, rfl⟩
  · split
    · exact ⟨rfl, rfl⟩
    · split
      · exact ⟨rfl, rfl⟩
      · split
        · exact ⟨rfl, rfl⟩
        · split <;> exact ⟨rfl, rfl⟩

end

end StreamMux

end Gateway

end TianmaCoder
