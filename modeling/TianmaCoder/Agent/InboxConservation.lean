import TianmaCoder.Agent.InboxSplice
import TianmaCoder.Lib.Transition

/-!
# Conservation of pending input

Over every run of the facade the lists are the fold of the log and what standard splicing makes
of them, no identity is pending twice, and every inserted message is pending or has left through
one notification. A claim of a turn and a clear are two appends each: when the second is refused
after the first was published, the call throws with the next-step input already gone, unclaimed.

## Main definitions

* `standard` — what an operation does to the two lists.
* `Torn` — the appends of a claim or of a clear that are only half published.
* `Conserving` — a run that conserves messages, in every state and at every call.

## Main results

* `conserving_iff` — a run conserves exactly when none of its calls is torn.
-/

namespace TianmaCoder

namespace Inbox

open Checked

/-! ## The standard effect -/

/-- What an operation does to the lists and which messages it returns, by standard splicing. -/
def standard (state : InboxState) : Operation → Except String (InboxState × List UserMessage)
  | .splice _ target start deleteCount inserted => do
    let inbox := state.list target
    let next ← Number.toSpliced inbox start deleteCount inserted
    let index := Number.relativeStart inbox.length start
    pure (state.setList target next,
      (inbox.drop index).take (Number.skipCount inbox.length index deleteCount))
  | .append _ target message => pure (state.setList target (state.list target ++ [message]), [])
  | .prepend _ target message => pure (state.setList target (message :: state.list target), [])
  | .replace _ messageId newMessage =>
    match InboxWorld.locate state messageId with
    | none => pure (state, [])
    | some (target, index) =>
      pure (state.setList target ((state.list target).set index newMessage), [])
  | .remove _ messageId =>
    match InboxWorld.locate state messageId with
    | none => pure (state, [])
    | some (target, index) => pure (state.setList target ((state.list target).eraseIdx index), [])
  | .claim _ _ .nextStep _ => pure ({ state with nextStep := [] }, state.nextStep)
  | .claim _ _ .nextTurn _ =>
    pure (⟨state.nextTurn.drop 1, []⟩, state.nextStep ++ state.nextTurn.take 1)
  | .clear _ _ => pure (⟨[], []⟩, [])
  | .other => pure (state, [])
  | .unregister => pure (state, [])
  | .register => pure (state, [])

variable {state next : InboxState} {target : InboxTarget} {inserted removed : List UserMessage}
  {discardRemoved : Bool}

/-! ## Deletions -/

theorem relativeStart_zero (length : ℕ) : Number.relativeStart length (.ofNat 0) = 0 :=
  Number.relativeStart_index (Nat.zero_le _) (Number.isIndex_ofNat 0)

theorem skipCount_zero (length n : ℕ) : Number.skipCount length 0 (.ofNat n) = min n length := by
  simp [Number.skipCount, Number.toIntegerOrInfinity, Number.ofNat]

/-- A deletion from the front drops and returns the first messages. -/
theorem Standard.front {n : ℕ} (h : Standard state target (.ofNat 0) (.ofNat n) [] removed next) :
    next = state.setList target ((state.list target).drop n) ∧
      removed = (state.list target).take n := by
  obtain ⟨messages, hsplice, rfl⟩ := h.splice
  have hmessages := (Number.toSpliced_eq_ok_iff.mp hsplice).2
  have hremoved := h.removed_eq
  rw [relativeStart_zero, skipCount_zero] at hmessages hremoved
  constructor
  · rw [← hmessages, Number.spliceAt, List.take_zero, List.nil_append, List.nil_append,
      Nat.zero_add, ← List.drop_eq_drop_min]
  · rw [hremoved, List.drop_zero, ← List.take_eq_take_min]

namespace InboxWorld

variable {w w' : InboxWorld}

/-- A deletion from the front is always planned, with a start that is lossless JSON. -/
theorem planSplice_front (hvalid : state.Valid) (target : InboxTarget) (n : ℕ)
    (discardRemoved : Bool) :
    (n = 0 ∨ state.list target = []) ∧
        planSplice state target (.ofNat 0) (.ofNat n) [] discardRemoved = .ok none ∨
      ¬(n = 0 ∨ state.list target = []) ∧ ∃ data removed,
        planSplice state target (.ofNat 0) (.ofNat n) [] discardRemoved = .ok (some (data, removed)) ∧
        data.start ≠ .negZero := by
  have hstart := actualStart_ofNat (Nat.zero_le (state.list target).length)
  have hcount := actualDeleteCount_eq (Nat.zero_le (state.list target).length)
    (Number.isIndex_ofNat 0) (.ofNat n)
  rw [skipCount_zero] at hcount
  have hempty : Number.ofNat (min n (state.list target).length) = .ofNat 0 ↔
      n = 0 ∨ state.list target = [] := by
    rw [← List.length_eq_zero_iff]
    simp only [Number.ofNat, Number.finite.injEq, Nat.cast_inj]
    omega
  simp only [planSplice, hstart, hcount, hempty, and_true]
  by_cases hnone : n = 0 ∨ state.list target = []
  · left
    simp only [hnone, if_true, pure_eq, and_self]
  · right
    have hspliced : Number.toSpliced (state.list target) (.ofNat 0)
        (.ofNat (min n (state.list target).length)) [] =
          .ok ((state.list target).drop (min n (state.list target).length)) := by
      rw [Number.toSpliced_eq_ok_iff, relativeStart_zero, skipCount_zero]
      have hmin : min (min n (state.list target).length) (state.list target).length =
          min n (state.list target).length := by omega
      have hbound := hvalid.length_le target
      rw [hmin, Number.spliceAt, List.take_zero, List.nil_append, List.nil_append, Nat.zero_add]
      refine ⟨?_, rfl⟩
      rw [List.length_drop]
      omega
    have hcheck := hvalid.sublist (List.drop_sublist (min n (state.list target).length)
      (state.list target))
    refine ⟨hnone, ?_⟩
    simp only [hnone, if_false, hspliced, Except.mapError, ok_bind, hcheck, pure_eq,
      Except.ok.injEq, Option.some.injEq, Prod.mk.injEq]
    refine ⟨_, _, ⟨rfl, rfl⟩, ?_⟩
    simp [Number.ofNat]

/-- A deletion from the front throws only when there is something to delete and the append is
refused. -/
theorem mutate_front (h : w.Sound state) (hreg : w.registered = true) (verdict : Verdict)
    (target : InboxTarget) (n : ℕ) (discardRemoved : Bool) :
    (∃ e, w.mutate verdict target (.ofNat 0) (.ofNat n) [] discardRemoved = (w, .error e)) ∧
        n ≠ 0 ∧ state.list target ≠ [] ∧ (∃ message, verdict = .refuse message) ∨
      ∃ w', w.mutate verdict target (.ofNat 0) (.ofNat n) [] discardRemoved =
          (w', .ok ((state.list target).take n)) ∧
        Mutated w verdict state target (.ofNat 0) (.ofNat n) [] discardRemoved w'
          ((state.list target).take n) (state.setList target ((state.list target).drop n)) ∧
        (n = 0 ∨ state.list target = [] ∨ verdict = .publish w'.registered) := by
  rcases mutate_spec h verdict target (.ofNat 0) (.ofNat n) [] discardRemoved with
    ⟨e, he⟩ | ⟨w', removed, next, hmutate, _, hmutated⟩
  · left
    rcases planSplice_front h.valid target n discardRemoved with
      ⟨_, hplan⟩ | ⟨hsome, data, removed, hplan, hstart⟩
    · simp [mutate, h.current_eq hreg, hplan] at he
    · simp only [not_or] at hsome
      refine ⟨⟨e, he⟩, hsome.1, hsome.2, ?_⟩
      cases verdict with
      | refuse message => exact ⟨message, rfl⟩
      | publish registered => simp [mutate, h.current_eq hreg, hplan, appendSplice, hstart] at he
  · right
    obtain ⟨rfl, rfl⟩ := hmutated.standard.front
    refine ⟨w', hmutate, hmutated, ?_⟩
    rcases hmutated.committed with ⟨_, hnone⟩ | hpublished
    · rw [List.take_eq_nil_iff] at hnone
      exact hnone.imp_right .inl
    · exact .inr (.inr hpublished)

theorem takeAll_spec (h : w.Sound state) (verdict : Verdict) (target : InboxTarget)
    (discardRemoved : Bool) :
    (∃ e, w.takeAll verdict target discardRemoved = (w, .error e)) ∧
        (w.registered = false ∨ state.list target ≠ [] ∧ ∃ message, verdict = .refuse message) ∨
      ∃ w', w.takeAll verdict target discardRemoved = (w', .ok (state.list target)) ∧
        w.registered = true ∧
        w'.Sound (state.setList target []) ∧
        w'.emitted = w.emitted ++ announced discardRemoved (state.list target) [] ∧
        (state.list target = [] ∧ w' = w ∨
          state.list target ≠ [] ∧ verdict = .publish w'.registered) := by
  by_cases hreg : w.registered = true
  · have hfront := mutate_front h hreg verdict target (state.list target).length discardRemoved
    rw [List.take_length, List.drop_length, List.length_eq_zero_iff] at hfront
    rcases hfront with ⟨⟨e, he⟩, _, hne, hrefuse⟩ | ⟨w', hmutate, hmutated, hverdict⟩
    · left
      exact ⟨⟨e, by simp only [takeAll, h.current_eq hreg, he]⟩, .inr ⟨hne, hrefuse⟩⟩
    · right
      refine ⟨w', by simp only [takeAll, h.current_eq hreg, hmutate], hreg, hmutated.sound,
        hmutated.emitted_eq, ?_⟩
      by_cases hempty : state.list target = []
      · left
        have hplan := planSplice_front h.valid target (state.list target).length discardRemoved
        simp only [hempty, List.length_nil, or_self, not_true, true_and, false_and, or_false] at hplan
        rw [hempty, List.length_nil] at hmutate
        simp only [mutate, h.current_eq hreg, hplan, Prod.mk.injEq] at hmutate
        exact ⟨hempty, hmutate.1.symm⟩
      · right
        have hpublished : verdict = .publish w'.registered := by
          rcases hverdict with h' | h' | h'
          · exact absurd h' hempty
          · exact absurd h' hempty
          · exact h'
        exact ⟨hempty, hpublished⟩
  · left
    have hreg' : w.registered = false := by simpa using hreg
    obtain ⟨e, he⟩ := current_error hreg'
    exact ⟨⟨e, by simp only [takeAll, he]⟩, .inl hreg'⟩

end InboxWorld

/-! ## Single splices -/

/-- A splice at a position replaces the items it counts. -/
theorem Standard.at {i n : ℕ} (hi : i ≤ (state.list target).length)
    (hn : n ≤ (state.list target).length - i)
    (h : Standard state target (.ofNat i) (.ofNat n) inserted removed next) :
    next = state.setList target (Number.spliceAt (state.list target) i n inserted) := by
  obtain ⟨messages, hsplice, rfl⟩ := h.splice
  have hmessages := (Number.toSpliced_eq_ok_iff.mp hsplice).2
  rw [Number.relativeStart_index hi (Number.isIndex_ofNat i), Number.skipCount_ofNat hn] at hmessages
  rw [← hmessages]

theorem locate_lt {messageId : String} {index : ℕ}
    (h : InboxWorld.locate state messageId = some (target, index)) :
    index < (state.list target).length := by
  unfold InboxWorld.locate at h
  cases hturn : state.nextTurn.findIdx? fun message => message.id == messageId with
  | some found =>
    simp only [hturn, Option.some.injEq, Prod.mk.injEq] at h
    obtain ⟨rfl, rfl⟩ := h
    exact (List.findIdx?_eq_some_iff_getElem.mp hturn).1
  | none =>
    simp only [hturn, Option.map_eq_some_iff, Prod.mk.injEq] at h
    obtain ⟨found, hstep, rfl, rfl⟩ := h
    exact (List.findIdx?_eq_some_iff_getElem.mp hstep).1

/-! ## The ledger -/

/-- The messages announced as inserted. -/
def insertedMessages (notes : List Notification) : List UserMessage :=
  notes.filterMap fun
    | .inserted message => some message
    | _ => none

/-- The messages announced as claimed or discarded. -/
def departedMessages (notes : List Notification) : List UserMessage :=
  notes.filterMap fun
    | .inserted _ => none
    | .discarded message => some message
    | .claimed message _ => some message

/-- The notes account for the change of the lists. -/
def Accounts (notes : List Notification) (state next : InboxState) : Prop :=
  (next.pending ++ departedMessages notes).Perm (state.pending ++ insertedMessages notes)

theorem insertedMessages_append (notes notes' : List Notification) :
    insertedMessages (notes ++ notes') = insertedMessages notes ++ insertedMessages notes' :=
  List.filterMap_append

theorem departedMessages_append (notes notes' : List Notification) :
    departedMessages (notes ++ notes') = departedMessages notes ++ departedMessages notes' :=
  List.filterMap_append

theorem Accounts.nil (state : InboxState) : Accounts [] state state := List.Perm.refl _

/-- Two exchanges one after the other. -/
theorem perm_exchange {α : Type} {p q s d d' i i' : List α} (h : (q ++ d).Perm (s ++ i))
    (h' : (p ++ d').Perm (q ++ i')) : (p ++ (d ++ d')).Perm (s ++ (i ++ i')) := by
  have hswap : (d ++ d').Perm (d' ++ d) := List.perm_append_comm
  have hback : (i' ++ d).Perm (d ++ i') := List.perm_append_comm
  calc List.Perm (p ++ (d ++ d')) (p ++ d' ++ d) := by
        rw [List.append_assoc]
        exact hswap.append_left _
    List.Perm _ (q ++ i' ++ d) := h'.append_right _
    List.Perm _ (q ++ d ++ i') := by
        rw [List.append_assoc, List.append_assoc]
        exact hback.append_left _
    List.Perm _ (s ++ (i ++ i')) := by
        rw [← List.append_assoc]
        exact h.append_right _

theorem Accounts.append {notes notes' : List Notification} {state middle next : InboxState}
    (h : Accounts notes state middle) (h' : Accounts notes' middle next) :
    Accounts (notes ++ notes') state next := by
  rw [Accounts, departedMessages_append, insertedMessages_append]
  exact perm_exchange h h'

theorem Accounts.claimed {state next : InboxState} {batch : List UserMessage} (turn : ℕ)
    (h : (next.pending ++ batch).Perm state.pending) :
    Accounts (batch.map (.claimed · turn)) state next := by
  have hdeparted : departedMessages (batch.map (.claimed · turn)) = batch := by
    simp [departedMessages, List.filterMap_map]
  have hinserted : insertedMessages (batch.map (.claimed · turn)) = [] := by
    simp [insertedMessages, List.filterMap_map]
  rw [Accounts, hdeparted, hinserted, List.append_nil]
  exact h

theorem Standard.accounts {start deleteCount : Number}
    (h : Standard state target start deleteCount inserted removed next) :
    Accounts (InboxWorld.announced true removed inserted) state next := by
  have hdeparted : departedMessages (InboxWorld.announced true removed inserted) = removed := by
    simp [InboxWorld.announced, departedMessages, List.filterMap_map]
  have hinserted : insertedMessages (InboxWorld.announced true removed inserted) = inserted := by
    simp [InboxWorld.announced, insertedMessages, List.filterMap_map]
  rw [Accounts, hdeparted, hinserted]
  exact h.perm

/-! ## Calls -/

/-- A call that is performed: the standard effect, accounted for. -/
structure Performed (w : InboxWorld) (operation : Operation) (state : InboxState) (w' : InboxWorld)
    (out : List UserMessage) (next : InboxState) : Prop where
  standard_eq : standard state operation = .ok (next, out)
  sound : w'.Sound next
  accounts : ∃ notes, w'.emitted = w.emitted ++ notes ∧ Accounts notes state next

/-- The next-step input of a call that goes on to the queued turns is gone, and the second append
of the call fails: the registration was dropped in between, or the session refuses it. -/
def TornBetween (w : InboxWorld) (verdict₁ verdict₂ : Verdict) : Prop :=
  w.registered = true ∧ ∃ state, w.current = .ok state ∧ state.nextStep ≠ [] ∧
    (verdict₁ = .publish false ∨
      verdict₁ = .publish true ∧ state.nextTurn ≠ [] ∧ ∃ message, verdict₂ = .refuse message)

/-- A claim of a turn or a clear that is only half published. -/
def Torn (w : InboxWorld) : Operation → Prop
  | .claim verdict₁ verdict₂ .nextTurn _ => TornBetween w verdict₁ verdict₂
  | .clear verdict₁ verdict₂ => TornBetween w verdict₁ verdict₂
  | _ => False

namespace InboxWorld

variable {w : InboxWorld}

/-- A discarding splice throws and changes nothing, or it is performed. -/
theorem splice_spec (h : w.Sound state) (verdict : Verdict) (target : InboxTarget)
    (start deleteCount : Number) (inserted : List UserMessage) :
    (∃ e, w.splice verdict target start deleteCount inserted = (w, .error e)) ∨
      ∃ w' removed next, w.splice verdict target start deleteCount inserted = (w', .ok removed) ∧
        w'.Sound next ∧ Standard state target start deleteCount inserted removed next ∧
        ∃ notes, w'.emitted = w.emitted ++ notes ∧ Accounts notes state next := by
  rcases mutate_spec h verdict target start deleteCount inserted true with
    he | ⟨w', removed, next, hmutate, _, hmutated⟩
  · exact .inl he
  · exact .inr ⟨w', removed, next, hmutate, hmutated.sound, hmutated.standard, _,
      hmutated.emitted_eq, hmutated.standard.accounts⟩

theorem exchange_spec (h : w.Sound state) (verdict : Verdict) (messageId : String)
    (messages : List UserMessage) :
    (∃ e, w.exchange verdict messageId messages = (w, .error e)) ∨
      ∃ w' found next, w.exchange verdict messageId messages = (w', .ok found) ∧
        (next = match locate state messageId with
          | none => state
          | some (target, index) =>
            state.setList target (Number.spliceAt (state.list target) index 1 messages)) ∧
        w'.Sound next ∧ ∃ notes, w'.emitted = w.emitted ++ notes ∧ Accounts notes state next := by
  by_cases hreg : w.registered = true
  · cases hlocate : locate state messageId with
    | none =>
      right
      exact ⟨w, false, state, by simp only [exchange, h.current_eq hreg, hlocate], rfl, h, [],
        (List.append_nil _).symm, Accounts.nil state⟩
    | some found =>
      obtain ⟨target, index⟩ := found
      have hlt := locate_lt hlocate
      rcases splice_spec h verdict target (.ofNat index) (.ofNat 1) messages with
        ⟨e, he⟩ | ⟨w', removed, next, hsplice, hsound, hstandard, hnotes⟩
      · left
        exact ⟨e, by simp only [exchange, h.current_eq hreg, hlocate, he]⟩
      · right
        exact ⟨w', true, next, by simp only [exchange, h.current_eq hreg, hlocate, hsplice],
          hstandard.at hlt.le (by omega), hsound, hnotes⟩
  · left
    have hreg' : w.registered = false := by simpa using hreg
    obtain ⟨e, he⟩ := current_error hreg'
    exact ⟨e, by simp only [exchange, he]⟩

/-- The first half of a clear or of a claim that is not torn leaves the second half in reach. -/
theorem second_front (h : w.Sound state) {verdict₁ : Verdict} (verdict₂ : Verdict) {w₁ : InboxWorld}
    (hreg : w.registered = true) (hfirst : state.nextStep = [] ∧ w₁ = w ∨
      state.nextStep ≠ [] ∧ verdict₁ = .publish w₁.registered) :
    (¬TornBetween w verdict₁ verdict₂ ↔
      state.nextStep = [] ∨ w₁.registered = true ∧
        (state.nextTurn = [] ∨ ∃ registered, verdict₂ = .publish registered)) := by
  have hstate : ∀ other, w.current = .ok other ↔ state = other := by
    intro other
    rw [h.current_eq hreg, Except.ok.injEq]
  have hverdict : (∃ registered, verdict₂ = .publish registered) ↔
      ¬∃ message, verdict₂ = .refuse message := by
    cases verdict₂ <;> simp
  simp only [TornBetween, hreg, true_and, hstate, exists_eq_left', hverdict]
  rcases hfirst with ⟨hempty, _⟩ | ⟨hne, rfl⟩
  · simp [hempty]
  · cases hw₁ : w₁.registered <;> simp [hne]
    tauto

/-- What an operation does from a sound world: it is not torn, and then it throws and changes
nothing or is performed; or it is torn, throws and changes the lists. -/
inductive Outcome (w : InboxWorld) (state : InboxState) (operation : Operation) : Prop where
  | thrown (h : ¬Torn w operation) (e : Failure) (heq : w.exec operation = (w, .error e))
  | performed (h : ¬Torn w operation) (w' : InboxWorld) (out : List UserMessage)
      (next : InboxState) (heq : w.exec operation = (w', .ok out))
      (hperformed : Performed w operation state w' out next)
  | torn (h : Torn w operation) (e : Failure) (w' : InboxWorld) (next : InboxState)
      (heq : w.exec operation = (w', .error e)) (hsound : w'.Sound next) (hne : next ≠ state)

/-- A first append that is refused tears nothing. -/
theorem not_torn_of_refused {verdict₁ verdict₂ : Verdict}
    (h : w.registered = false ∨ state.nextStep ≠ [] ∧ ∃ message, verdict₁ = .refuse message) :
    ¬TornBetween w verdict₁ verdict₂ := by
  rintro ⟨hreg, _, _, _, hverdict⟩
  rcases h with h | ⟨_, message, rfl⟩
  · simp [hreg] at h
  · simp at hverdict

theorem setList_nextStep_ne (h : state.nextStep ≠ []) : state.setList .nextStep [] ≠ state := by
  intro heq
  exact h (congrArg InboxState.nextStep heq).symm

theorem claim_outcome (h : w.Sound state) (verdict₁ verdict₂ : Verdict) (turn : ℕ) :
    Outcome w state (.claim verdict₁ verdict₂ .nextTurn turn) := by
  rcases takeAll_spec h verdict₁ .nextStep false with
    ⟨⟨e, he⟩, hrefused⟩ | ⟨w₁, htake, hreg, hsound, hemitted, hfirst⟩
  · exact .thrown (not_torn_of_refused hrefused) e (by simp only [exec, claim, he])
  · have htorn := second_front h verdict₂ hreg hfirst
    by_cases hreg₁ : w₁.registered = true
    · rcases mutate_front hsound hreg₁ verdict₂ .nextTurn 1 false with
        ⟨⟨e, he⟩, _, hne, message, rfl⟩ | ⟨w₂, hmutate, hmutated, hverdict⟩
      · have hexec : w.exec (.claim verdict₁ (.refuse message) .nextTurn turn) = (w₁, .error e) := by
          simp only [exec, claim, htake, he]
        rcases hfirst with ⟨hempty, rfl⟩ | ⟨hstep, _⟩
        · exact .thrown (htorn.mpr (.inl hempty)) e hexec
        · refine .torn (not_not.mp fun hnot => ?_) e w₁ _ hexec hsound (setList_nextStep_ne hstep)
          rcases htorn.mp hnot with hempty | ⟨_, hempty | ⟨_, hpublish⟩⟩
          · exact hstep hempty
          · exact hne hempty
          · cases hpublish
      · refine .performed (htorn.mpr (.inr ⟨hreg₁, ?_⟩)) _ _ _
          (by simp only [exec, claim, htake, hmutate]; rfl) ⟨rfl, hmutated.sound.emit _, ?_⟩
        · rcases hverdict with hzero | hempty | hpublish
          · cases hzero
          · exact .inl hempty
          · exact .inr ⟨_, hpublish⟩
        · refine ⟨(state.nextStep ++ state.nextTurn.take 1).map (.claimed · turn), ?_, ?_⟩
          · simp only [emit, hmutated.emitted_eq, hemitted, announced]
            simp only [Bool.false_eq_true, if_false, List.map_nil, List.append_nil]
            rfl
          · apply Accounts.claimed
            have hback : (state.nextStep ++ state.nextTurn).Perm (state.nextTurn ++ state.nextStep) :=
              List.perm_append_comm
            simp only [InboxState.pending, List.append_nil]
            refine List.perm_append_comm.trans ?_
            rw [List.append_assoc, List.take_append_drop]
            exact hback
    · have hreg₁' : w₁.registered = false := by simpa using hreg₁
      obtain ⟨e, he⟩ := current_error hreg₁'
      have hexec : w.exec (.claim verdict₁ verdict₂ .nextTurn turn) = (w₁, .error e) := by
        simp only [exec, claim, htake, mutate, he]
      rcases hfirst with ⟨_, rfl⟩ | ⟨hstep, _⟩
      · exact absurd hreg hreg₁
      · refine .torn (not_not.mp fun hnot => ?_) e w₁ _ hexec hsound (setList_nextStep_ne hstep)
        rcases htorn.mp hnot with hempty | ⟨hregistered, _⟩
        · exact hstep hempty
        · exact hreg₁ hregistered

theorem accounts_discarded (state : InboxState) (target : InboxTarget) :
    Accounts (announced true (state.list target) []) state (state.setList target []) := by
  have hdeparted : departedMessages (announced true (state.list target) []) =
      state.list target := by
    simp [announced, departedMessages, List.filterMap_map]
  have hinserted : insertedMessages (announced true (state.list target) []) = [] := by
    simp [announced, insertedMessages, List.filterMap_map]
  rw [Accounts, hdeparted, hinserted]
  apply state.pending_setList_perm
  rw [List.nil_append, List.append_nil]

theorem clear_outcome (h : w.Sound state) (verdict₁ verdict₂ : Verdict) :
    Outcome w state (.clear verdict₁ verdict₂) := by
  rcases takeAll_spec h verdict₁ .nextStep true with
    ⟨⟨e, he⟩, hrefused⟩ | ⟨w₁, htake, hreg, hsound, hemitted, hfirst⟩
  · exact .thrown (not_torn_of_refused hrefused) e (by simp [exec, clear, he, silent, Except.map])
  · have htorn := second_front h verdict₂ hreg hfirst
    rcases takeAll_spec hsound verdict₂ .nextTurn true with
      ⟨⟨e, he⟩, hrefused⟩ | ⟨w₂, htake₂, hreg₁, hsound₂, hemitted₂, hsecond⟩
    · have hexec : w.exec (.clear verdict₁ verdict₂) = (w₁, .error e) := by
        simp [exec, clear, htake, he, silent, Except.map]
      rcases hfirst with ⟨hempty, rfl⟩ | ⟨hstep, _⟩
      · exact .thrown (htorn.mpr (.inl hempty)) e hexec
      · refine .torn (not_not.mp fun hnot => ?_) e w₁ _ hexec hsound (setList_nextStep_ne hstep)
        rcases htorn.mp hnot with hempty | ⟨hregistered, hsome⟩
        · exact hstep hempty
        · rcases hrefused with hreg₁ | ⟨hne, message, rfl⟩
          · simp [hregistered] at hreg₁
          · rcases hsome with hempty | ⟨_, hpublish⟩
            · exact hne hempty
            · cases hpublish
    · refine .performed (htorn.mpr (.inr ⟨hreg₁, ?_⟩)) w₂ [] _
        (by simp [exec, clear, htake, htake₂, silent, Except.map]) ⟨rfl, hsound₂, ?_⟩
      · rcases hsecond with ⟨hempty, _⟩ | ⟨_, hpublish⟩
        · exact .inl hempty
        · exact .inr ⟨_, hpublish⟩
      · refine ⟨_, ?_, (accounts_discarded state .nextStep).append
          (accounts_discarded (state.setList .nextStep []) .nextTurn)⟩
        rw [hemitted₂, hemitted, List.append_assoc]

theorem claim_nextStep_outcome (h : w.Sound state) (verdict₁ verdict₂ : Verdict) (turn : ℕ) :
    Outcome w state (.claim verdict₁ verdict₂ .nextStep turn) := by
  rcases takeAll_spec h verdict₁ .nextStep false with
    ⟨⟨e, he⟩, _⟩ | ⟨w', htake, _, hsound, hemitted, _⟩
  · exact .thrown not_false e (by simp only [exec, claim, he])
  · refine .performed not_false _ _ _ (by simp only [exec, claim, htake]; rfl)
      ⟨rfl, hsound.emit _, state.nextStep.map (.claimed · turn), ?_, Accounts.claimed turn ?_⟩
    · simp only [emit, hemitted, announced, Bool.false_eq_true, if_false, List.map_nil,
        List.append_nil]
      rfl
    · simp [InboxState.pending]

theorem append_outcome (h : w.Sound state) (verdict : Verdict) (target : InboxTarget)
    (message : UserMessage) : Outcome w state (.append verdict target message) := by
  by_cases hreg : w.registered = true
  · rcases splice_spec h verdict target (.ofNat (state.list target).length) (.ofNat 0) [message]
      with ⟨e, he⟩ | ⟨w', removed, next, hsplice, hsound, hstandard, hnotes⟩
    · exact .thrown not_false e
        (by simp [exec, append, h.current_eq hreg, he, silent, Except.map])
    · refine .performed not_false w' [] next
        (by simp [exec, append, h.current_eq hreg, hsplice, silent, Except.map])
        ⟨?_, hsound, hnotes⟩
      rw [hstandard.at (le_refl _) (Nat.zero_le _)]
      simp [standard, Number.spliceAt]
  · have hreg' : w.registered = false := by simpa using hreg
    obtain ⟨e, he⟩ := current_error hreg'
    exact .thrown not_false e (by simp [exec, append, he, silent, Except.map])

theorem prepend_outcome (h : w.Sound state) (verdict : Verdict) (target : InboxTarget)
    (message : UserMessage) : Outcome w state (.prepend verdict target message) := by
  rcases splice_spec h verdict target (.ofNat 0) (.ofNat 0) [message]
    with ⟨e, he⟩ | ⟨w', removed, next, hsplice, hsound, hstandard, hnotes⟩
  · exact .thrown not_false e (by simp [exec, prepend, he, silent, Except.map])
  · refine .performed not_false w' [] next (by simp [exec, prepend, hsplice, silent, Except.map])
      ⟨?_, hsound, hnotes⟩
    rw [hstandard.at (Nat.zero_le _) (Nat.zero_le _)]
    simp [standard, Number.spliceAt]

theorem appendOther_emitted (w : InboxWorld) : w.appendOther.emitted = w.emitted := by
  unfold appendOther
  by_cases hreg : w.registered = true
  · rw [if_pos hreg, InboxWorld.drive]
    cases hfold : (w.commit none).materialize with
    | error e => rfl
    | ok w' =>
      unfold materialize at hfold
      obtain ⟨cell, _, hpure⟩ := bind_ok hfold
      cases hpure
      rfl
  · rw [if_neg hreg]
    rfl

theorem exec_outcome (h : w.Sound state) (operation : Operation) : Outcome w state operation := by
  cases operation with
  | splice verdict target start deleteCount inserted =>
    rcases splice_spec h verdict target start deleteCount inserted with
      ⟨e, he⟩ | ⟨w', removed, next, hsplice, hsound, hstandard, hnotes⟩
    · exact .thrown not_false e he
    · refine .performed not_false w' removed next hsplice ⟨?_, hsound, hnotes⟩
      obtain ⟨messages, hmessages, rfl⟩ := hstandard.splice
      simp only [standard, hmessages, ok_bind, pure_eq, hstandard.removed_eq]
  | append verdict target message => exact append_outcome h verdict target message
  | prepend verdict target message => exact prepend_outcome h verdict target message
  | replace verdict messageId newMessage =>
    rcases exchange_spec h verdict messageId [newMessage] with
      ⟨e, he⟩ | ⟨w', found, next, hexchange, rfl, hsound, hnotes⟩
    · exact .thrown not_false e (by simp [exec, replace, he, silent, Except.map])
    · refine .performed not_false w' [] _ (by simp [exec, replace, hexchange, silent, Except.map])
        ⟨?_, hsound, hnotes⟩
      cases hlocate : locate state messageId with
      | none => simp only [standard, hlocate, pure_eq]
      | some found =>
        have hlt := locate_lt hlocate
        simp only [standard, hlocate, pure_eq, Number.spliceAt]
        rw [List.set_eq_take_append_cons_drop, if_pos hlt, List.append_assoc]
        rfl
  | remove verdict messageId =>
    rcases exchange_spec h verdict messageId [] with
      ⟨e, he⟩ | ⟨w', found, next, hexchange, rfl, hsound, hnotes⟩
    · exact .thrown not_false e (by simp [exec, remove, he, silent, Except.map])
    · refine .performed not_false w' [] _ (by simp [exec, remove, hexchange, silent, Except.map])
        ⟨?_, hsound, hnotes⟩
      cases hlocate : locate state messageId with
      | none => simp only [standard, hlocate, pure_eq]
      | some found =>
        simp only [standard, hlocate, pure_eq, Number.spliceAt, List.append_nil]
        rw [List.eraseIdx_eq_take_drop_succ]
  | claim verdict₁ verdict₂ target turn =>
    cases target with
    | nextTurn => exact claim_outcome h verdict₁ verdict₂ turn
    | nextStep => exact claim_nextStep_outcome h verdict₁ verdict₂ turn
  | clear verdict₁ verdict₂ => exact clear_outcome h verdict₁ verdict₂
  | other =>
    exact .performed not_false _ [] state rfl ⟨rfl, h.appendOther, [], by
      rw [List.append_nil, appendOther_emitted], Accounts.nil state⟩
  | unregister =>
    exact .performed not_false _ [] state rfl
      ⟨rfl, h.unregister, [], (List.append_nil _).symm, Accounts.nil state⟩
  | register =>
    refine .performed not_false _ [] state rfl ⟨rfl, h.register, [], ?_, Accounts.nil state⟩
    simp only [register, List.append_nil]
    by_cases hreg : w.registered = true <;> simp [hreg]

end InboxWorld

/-! ## Runs -/

/-- A call that throws leaves the lists as they were; one that returns has the standard effect
on them, and returns the standard result. -/
def Respects (state : InboxState) (operation : Operation) :
    InboxWorld × Except Failure (List UserMessage) → Prop
  | (w', .error _) => fold w'.log = .ok state
  | (w', .ok out) => ∃ next, standard state operation = .ok (next, out) ∧ fold w'.log = .ok next

/-- The projection accepts the log, the facade reads its fold, no identity is pending twice, and
what was pending at the start or inserted since is pending or has left through one notification. -/
def Conserved (start : List UserMessage) (w : InboxWorld) : Prop :=
  ∃ state, fold w.log = .ok state ∧ (w.registered = true → w.current = .ok state) ∧
    (state.pending.map (·.id)).Nodup ∧
    (state.pending ++ departedMessages w.emitted).Perm (start ++ insertedMessages w.emitted)

/-- Every state of the run is conserved and every call respects the standard effect. -/
def Conserving (start : List UserMessage) (w : InboxWorld) (operations : List Operation) : Prop :=
  Conserved start w ∧ Transition.Guarded InboxWorld.step
    (fun w operation =>
      (∀ state, fold w.log = .ok state → Respects state operation (w.exec operation)) ∧
      Conserved start (w.exec operation).1) w operations

/-- A facade over a log, before its first call. -/
def opened (sessionId : String) (log : List LogEvent) : InboxWorld :=
  ⟨sessionId, log, true, init, 0, []⟩

namespace InboxWorld

variable {w : InboxWorld} {start : List UserMessage}

/-- The invariant of the runs that are not torn. -/
def Invariant (start : List UserMessage) (w : InboxWorld) : Prop :=
  ∃ state, w.Sound state ∧
    (state.pending ++ departedMessages w.emitted).Perm (start ++ insertedMessages w.emitted)

theorem Invariant.conserved (h : w.Invariant start) : Conserved start w := by
  obtain ⟨state, hsound, hledger⟩ := h
  exact ⟨state, hsound.fold_eq, hsound.current_eq, hsound.valid.nodup, hledger⟩

/-- A step that is not torn keeps the invariant. -/
theorem Invariant.exec (h : w.Invariant start) {operation : Operation} (htorn : ¬Torn w operation) :
    (w.exec operation).1.Invariant start := by
  obtain ⟨state, hsound, hledger⟩ := h
  cases exec_outcome hsound operation with
  | thrown _ e heq => exact heq ▸ ⟨state, hsound, hledger⟩
  | torn hyes _ _ _ _ _ _ => exact absurd hyes htorn
  | performed _ w' out next heq hperformed =>
    rw [heq]
    refine ⟨next, hperformed.sound, ?_⟩
    obtain ⟨notes, hemitted, haccounts⟩ := hperformed.accounts
    rw [hemitted, departedMessages_append, insertedMessages_append]
    exact perm_exchange hledger haccounts

theorem respects_iff (h : w.Sound state) (operation : Operation) :
    Respects state operation (w.exec operation) ↔ ¬Torn w operation := by
  cases exec_outcome h operation with
  | thrown hnot e heq => simp [heq, Respects, h.fold_eq, hnot]
  | performed hnot w' out next heq hperformed =>
    simp only [heq, Respects, hnot, not_false_iff, iff_true]
    exact ⟨next, hperformed.standard_eq, hperformed.sound.fold_eq⟩
  | torn hyes e w' next heq hsound hne =>
    simp only [heq, Respects, hyes, not_true, iff_false, hsound.fold_eq, Except.ok.injEq]
    exact hne

end InboxWorld

/-- A run conserves pending input exactly when none of its calls is torn. -/
theorem conserving_iff (sessionId : String) {log : List LogEvent} {state : InboxState}
    (h : fold log = .ok state) (operations : List Operation) :
    Conserving state.pending (opened sessionId log) operations ↔
      Transition.Guarded InboxWorld.step (fun w operation => ¬Torn w operation)
        (opened sessionId log) operations := by
  have hinit : (opened sessionId log).Invariant state.pending := by
    refine ⟨state, ⟨h, Nat.zero_le _, fun _ => h⟩, ?_⟩
    exact List.Perm.refl _
  have hiff : ∀ (w : InboxWorld) (operation : Operation), w.Invariant state.pending →
      (((∀ s, fold w.log = .ok s → Respects s operation (w.exec operation)) ∧
        Conserved state.pending (w.exec operation).1) ↔ ¬Torn w operation) := by
    intro w operation hw
    have ⟨s, hsound, _⟩ := hw
    have hrespects := InboxWorld.respects_iff hsound operation
    constructor
    · intro hstep
      exact hrespects.mp (hstep.1 s hsound.fold_eq)
    · intro htorn
      refine ⟨fun s' hs' => ?_, (hw.exec htorn).conserved⟩
      have heq : s = s' := Except.ok.inj (hsound.fold_eq.symm.trans hs')
      exact heq ▸ hrespects.mpr htorn
  have hkeep : ∀ (w : InboxWorld) (operation : Operation) (w' : InboxWorld),
      w.Invariant state.pending → ¬Torn w operation → w.step operation = some w' →
        w'.Invariant state.pending := by
    intro w operation w' hw htorn hstep
    cases hstep
    exact hw.exec htorn
  rw [Conserving, Transition.guarded_congr hiff hkeep hinit]
  exact and_iff_right hinit.conserved

/-! ## A torn claim -/

def steering : UserMessage := ⟨"steering", .null⟩

def queued : UserMessage := ⟨"queued", .null⟩

/-- One message pending in each list. -/
def bothPending : List LogEvent :=
  [⟨0, some ⟨.nextStep, .ofNat 0, none, [steering], false⟩⟩,
    ⟨1, some ⟨.nextTurn, .ofNat 0, none, [queued], false⟩⟩]

/-- The second append of the claim is refused. -/
def tornClaim : Operation := .claim (.publish true) (.refuse "rejected") .nextTurn 1

/-- The claim throws with the steering input gone from the lists and never announced. -/
theorem torn_claim_loses : ¬Conserving [queued, steering] (opened "agent" bothPending) [tornClaim] := by
  have hfold : fold bothPending = .ok ⟨[queued], [steering]⟩ := by decide +kernel
  have hcurrent : (opened "agent" bothPending).current = .ok ⟨[queued], [steering]⟩ := by
    decide +kernel
  have hsound : (opened "agent" bothPending).Sound ⟨[queued], [steering]⟩ :=
    ⟨hfold, Nat.zero_le _, fun _ => hfold⟩
  have htorn : Torn (opened "agent" bothPending) tornClaim :=
    ⟨rfl, _, hcurrent, by simp, .inr ⟨rfl, by simp, _, rfl⟩⟩
  intro h
  exact (InboxWorld.respects_iff hsound tornClaim).mp (h.2.1.1 _ hfold) htorn

/-- A claim both of whose appends are published, then a removal of an identity that is gone. -/
theorem conserving_claim :
    Conserving [queued, steering] (opened "agent" bothPending)
        [.claim (.publish true) (.publish true) .nextTurn 1, .remove (.publish true) "queued"] ↔
      Transition.Guarded InboxWorld.step (fun w operation => ¬Torn w operation)
        (opened "agent" bothPending)
        [.claim (.publish true) (.publish true) .nextTurn 1, .remove (.publish true) "queued"] :=
  conserving_iff "agent" (by decide +kernel : fold bothPending = .ok ⟨[queued], [steering]⟩) _

end Inbox

end TianmaCoder
