import TianmaCoder.Util.Deque

/-!
# The uplink inbox of a logical stream

The bounded queue through which the source of a stream reads what its client sends. A read that
finds nothing waits in the single wake slot and continues in a later turn.

## Main definitions

* `Gateway.UplinkInbox` and its methods.
* `Gateway.UplinkInbox.Lossless` — what its reader can rely on.

## Main results

* `Gateway.UplinkInbox.Lossless.push`, `.poll`, … — every method keeps it.
-/

namespace TianmaCoder

namespace Gateway

/-- A Remote failure that the inbox itself reports. -/
structure Violation where
  code : String
  message : String
  endpoint : String
deriving DecidableEq

def itemAfterEnd (endpoint : String) : Violation :=
  ⟨"gateway/protocol", "api gateway: Remote stream uplink item after end", endpoint⟩

def uplinkOverflow (endpoint : String) (maxBytes : ℕ) : Violation :=
  ⟨"gateway/uplink-overflow",
    "api gateway: Remote stream uplink exceeded " ++ toString maxBytes ++ " buffered bytes", endpoint⟩

/-- What ends the consumer's reads: a violation, or a plain error with its message. -/
inductive InboxFailure
  | violation (v : Violation)
  | error (message : String)
deriving DecidableEq

structure UplinkEntry (α : Type) where
  value : α
  bytes : ℕ
deriving DecidableEq

/-- How one call of `next` settles. -/
inductive ReadResult (α : Type)
  | item (value : α)
  | done
  | failed (failure : InboxFailure)
deriving DecidableEq

/-- The inbox with its pending reads, the results of the settled ones and the values it has
accepted. Reads are numbered in the order of the calls. -/
structure UplinkInbox (α : Type) where
  maxBytes : ℕ
  endpoint : String
  queue : Deque (UplinkEntry α)
  bytes : ℕ
  ended : Bool
  closed : Bool
  taken : Bool
  failure : Option InboxFailure
  wake : Option ℕ
  woken : List ℕ
  reads : ℕ
  results : List (ℕ × ReadResult α)
  accepted : List α
deriving DecidableEq

namespace UplinkInbox

variable {α : Type}

def create (maxBytes : ℕ) (endpoint : String) : UplinkInbox α where
  maxBytes := maxBytes
  endpoint := endpoint
  queue := .empty
  bytes := 0
  ended := false
  closed := false
  taken := false
  failure := none
  wake := none
  woken := []
  reads := 0
  results := []
  accepted := []

/-- The waiting read is released; it continues in a later turn. -/
def signal (b : UplinkInbox α) : UplinkInbox α :=
  { b with wake := none, woken := b.woken ++ b.wake.toList }

/-- End the consumer's next read with a failure; buffered items are dropped. -/
def fail (b : UplinkInbox α) (failure : InboxFailure) : UplinkInbox α :=
  if b.failure.isSome then b
  else { b with failure := some failure, queue := b.queue.clear, bytes := 0 }.signal

/-- An item arrives; a violation fails the inbox and is reported. -/
def push (b : UplinkInbox α) (value : α) (frameBytes : ℕ) : UplinkInbox α × Option Violation :=
  if b.failure.isSome ∨ b.closed = true then (b, none)
  else if b.ended then
    (b.fail (.violation (itemAfterEnd b.endpoint)), some (itemAfterEnd b.endpoint))
  else if b.maxBytes < b.bytes + frameBytes then
    (b.fail (.violation (uplinkOverflow b.endpoint b.maxBytes)),
      some (uplinkOverflow b.endpoint b.maxBytes))
  else
    ({ b with
      queue := b.queue.pushBack (some ⟨value, frameBytes⟩)
      bytes := b.bytes + frameBytes
      accepted := b.accepted ++ [value] }.signal, none)

/-- The client's half-close. -/
def «end» (b : UplinkInbox α) : UplinkInbox α :=
  if b.ended then b else { b with ended := true }.signal

/-- The one consumer takes the iterator. -/
def iterator (b : UplinkInbox α) : Except String (UplinkInbox α) :=
  if b.taken then
    .error "api gateway: Remote stream uplink inbox already has a consumer"
  else .ok { b with taken := true }

def answer (b : UplinkInbox α) (id : ℕ) (result : ReadResult α) : UplinkInbox α :=
  { b with results := b.results ++ [(id, result)] }

/-- One turn of the loop of the read `id`. -/
def poll (b : UplinkInbox α) (id : ℕ) : UplinkInbox α :=
  if b.closed then b.answer id .done
  else
    match b.queue.popFront with
    | (some entry, queue) =>
      { b with queue := queue, bytes := b.bytes - entry.bytes }.answer id (.item entry.value)
    | (none, _) =>
      match b.failure with
      | some failure => b.answer id (.failed failure)
      | none =>
        if b.ended then b.answer id .done
        else if b.wake.isSome then
          b.answer id (.failed (.error
            "api gateway: Remote stream uplink inbox has one pending read"))
        else { b with wake := some id }

def next (b : UplinkInbox α) : UplinkInbox α := { b with reads := b.reads + 1 }.poll b.reads

/-- A released read continues. -/
def resume (b : UplinkInbox α) (id : ℕ) : UplinkInbox α :=
  { b with woken := b.woken.erase id }.poll id

/-- The consumer stops reading. -/
def «return» (b : UplinkInbox α) : UplinkInbox α :=
  { b with closed := true, queue := b.queue.clear, bytes := 0 }.signal

/-- The values that the reads have returned, in the order of their results. -/
def received (b : UplinkInbox α) : List α :=
  b.results.filterMap fun r =>
    match r.2 with
    | .item value => some value
    | _ => none

/-- What the reader of an inbox can rely on. -/
structure Lossless (b : UplinkInbox α) : Prop where
  /-- The counter is the sum of the queued bytes and within its limit. A failed or closed inbox
  holds nothing; any other holds the accepted items that are not received, in order. -/
  queued : ∃ xs, b.queue.Holds (xs.map some) ∧ b.bytes = (xs.map UplinkEntry.bytes).sum ∧
    (b.failure.isSome ∨ b.closed = true → xs = []) ∧
    (b.failure = none → b.closed = false → b.received ++ xs.map UplinkEntry.value = b.accepted)
  bounded : b.bytes ≤ b.maxBytes
  /-- Items are received in the order of arrival, each once. -/
  inOrder : b.received <+: b.accepted
  /-- The end is seen after all of them, unless the reader itself stopped. -/
  ending : ∀ id, (id, .done) ∈ b.results → b.closed = true ∨ b.ended = true ∧ b.received = b.accepted
  /-- Nothing is received after the end. -/
  last : ∀ pre id post, b.results = pre ++ (id, .done) :: post → ∀ i v, (i, .item v) ∉ post
  /-- A read waits only while there is nothing to answer it with. -/
  awake : b.wake.isSome → b.queue.Holds [] ∧ b.failure = none ∧ b.closed = false ∧ b.ended = false

theorem lossless_create (maxBytes : ℕ) (endpoint : String) :
    (create maxBytes endpoint : UplinkInbox α).Lossless where
  queued := ⟨[], Deque.holds_empty, rfl, fun _ => rfl, fun _ _ => rfl⟩
  bounded := Nat.zero_le _
  inOrder := List.nil_prefix
  ending := by
    intro id hid
    cases hid
  last := by
    intro pre id post hsplit
    have hlength := congrArg List.length hsplit
    simp [create] at hlength
  awake := by
    intro h
    cases h

variable {b : UplinkInbox α}

theorem Lossless.fail (h : b.Lossless) (failure : InboxFailure) : (b.fail failure).Lossless := by
  unfold UplinkInbox.fail
  split
  · exact h
  · refine ⟨⟨[], Deque.holds_empty, rfl, fun _ => rfl, ?_⟩, Nat.zero_le _, h.inOrder, h.ending,
      h.last, ?_⟩
    · intro hnone
      cases hnone
    · intro hwake
      cases hwake

/-- A failed or closed inbox answers later reads, and takes no more items. -/
theorem push_of_stopped {v : α} {n : ℕ} (hstopped : b.failure.isSome ∨ b.closed = true) :
    b.push v n = (b, none) := by
  rw [UplinkInbox.push, if_pos hstopped]

theorem push_of_violation {v : α} {n : ℕ} (hopen : b.failure = none ∧ b.closed = false)
    (hviolation : b.ended = true ∨ b.maxBytes < b.bytes + n) :
    ∃ violation, b.push v n = (b.fail (.violation violation), some violation) := by
  have hnot : ¬(b.failure.isSome ∨ b.closed = true) := by simp [hopen]
  rw [UplinkInbox.push, if_neg hnot]
  by_cases hended : b.ended = true
  · rw [if_pos hended]
    exact ⟨_, rfl⟩
  · have hover : b.maxBytes < b.bytes + n := hviolation.resolve_left hended
    rw [if_neg hended, if_pos hover]
    exact ⟨_, rfl⟩

theorem push_of_room {v : α} {n : ℕ} (hopen : b.failure = none ∧ b.closed = false)
    (hended : b.ended = false) (hroom : b.bytes + n ≤ b.maxBytes) :
    b.push v n = ({ b with
      queue := b.queue.pushBack (some ⟨v, n⟩)
      bytes := b.bytes + n
      accepted := b.accepted ++ [v] }.signal, none) := by
  have hnot : ¬(b.failure.isSome ∨ b.closed = true) := by simp [hopen]
  rw [UplinkInbox.push, if_neg hnot, if_neg (by simp [hended]), if_neg (by omega)]

theorem Lossless.push (h : b.Lossless) (v : α) (n : ℕ) : (b.push v n).1.Lossless := by
  by_cases hstopped : b.failure.isSome ∨ b.closed = true
  · rw [push_of_stopped hstopped]
    exact h
  · have hopen : b.failure = none ∧ b.closed = false := by simpa using hstopped
    by_cases hviolation : b.ended = true ∨ b.maxBytes < b.bytes + n
    · obtain ⟨violation, hpush⟩ := push_of_violation (v := v) hopen hviolation
      rw [hpush]
      exact h.fail _
    · rw [not_or, Bool.not_eq_true, Nat.not_lt] at hviolation
      obtain ⟨hended, hroom⟩ := hviolation
      rw [push_of_room hopen hended hroom]
      obtain ⟨xs, hholds, hbytes, -, hreceived⟩ := h.queued
      have hsplit := hreceived hopen.1 hopen.2
      have hpushed := hholds.pushBack (some (⟨v, n⟩ : UplinkEntry α))
      rw [← List.map_singleton, ← List.map_append] at hpushed
      refine ⟨⟨_, hpushed, ?_, ?_, ?_⟩, hroom, ?_, ?_, h.last, ?_⟩
      · simp [UplinkInbox.signal, hbytes]
      · intro hno
        exact absurd hno hstopped
      · intro _ _
        rw [List.map_append, ← List.append_assoc]
        exact congrArg (· ++ [v]) hsplit
      · exact h.inOrder.trans (List.prefix_append _ _)
      · intro id hid
        rcases h.ending id hid with hclosed | ⟨hend, -⟩
        · exact .inl hclosed
        · rw [hended] at hend
          cases hend
      · intro hwake
        cases hwake

theorem Lossless.end (h : b.Lossless) : b.end.Lossless := by
  unfold UplinkInbox.end
  split
  · exact h
  · rename_i hended
    refine ⟨h.queued, h.bounded, h.inOrder, ?_, h.last, ?_⟩
    · intro id hid
      rcases h.ending id hid with hclosed | ⟨hend, -⟩
      · exact .inl hclosed
      · exact absurd hend hended
    · intro hwake
      cases hwake

theorem Lossless.iterator {b' : UplinkInbox α} (h : b.Lossless) (hb : b.iterator = .ok b') :
    b'.Lossless := by
  unfold UplinkInbox.iterator at hb
  split at hb
  · cases hb
  · cases hb
    exact ⟨h.queued, h.bounded, h.inOrder, h.ending, h.last, h.awake⟩

theorem Lossless.return (h : b.Lossless) : b.return.Lossless where
  queued := ⟨[], Deque.holds_empty, rfl, fun _ => rfl, fun _ hclosed => by cases hclosed⟩
  bounded := Nat.zero_le _
  inOrder := h.inOrder
  ending := fun _ _ => .inl rfl
  last := h.last
  awake := by
    intro hwake
    cases hwake

@[simp] theorem received_answer_item (id : ℕ) (v : α) :
    (b.answer id (.item v)).received = b.received ++ [v] := by
  simp [answer, received]

theorem received_answer (id : ℕ) {r : ReadResult α} (hr : ∀ v, r ≠ .item v) :
    (b.answer id r).received = b.received := by
  cases r with
  | item v => exact absurd rfl (hr v)
  | done => simp [answer, received]
  | failed failure => simp [answer, received]

theorem last_answer {id : ℕ} {r : ReadResult α}
    (h : ∀ pre i post, b.results = pre ++ (i, .done) :: post → ∀ j v, (j, .item v) ∉ post)
    (hr : ∀ v, r = .item v → ∀ i, (i, .done) ∉ b.results) :
    ∀ pre i post, (b.answer id r).results = pre ++ (i, .done) :: post →
      ∀ j v, (j, .item v) ∉ post := by
  intro pre i post hsplit j v hmem
  have happend : b.results ++ [(id, r)] = pre ++ (i, .done) :: post := hsplit
  have hne : post ≠ [] := List.ne_nil_of_mem hmem
  obtain ⟨init, e, hconcat⟩ := (List.eq_nil_or_concat post).resolve_left hne
  rw [List.concat_eq_append] at hconcat
  subst post
  have hsplit' : b.results ++ [(id, r)] = (pre ++ (i, .done) :: init) ++ [e] := by
    rw [happend]
    simp
  obtain ⟨hresults, he⟩ := List.append_inj' hsplit' rfl
  rcases List.mem_append.mp hmem with hmem | hmem
  · exact h pre i init hresults j v hmem
  · have heq : (id, r) = (j, .item v) := by
      rw [List.mem_singleton.mp hmem]
      exact List.singleton_inj.mp he
    apply hr v (Prod.mk.inj heq).2 i
    rw [hresults]
    simp

theorem Lossless.poll (h : b.Lossless) (id : ℕ) : (b.poll id).Lossless := by
  obtain ⟨xs, hholds, hbytes, hstopped, hreceived⟩ := h.queued
  -- an answer that carries no item, in a state that explains an end
  have hplain : ∀ r : ReadResult α, (∀ v, r ≠ .item v) →
      (r = .done → b.closed = true ∨ b.ended = true ∧ b.received = b.accepted) →
      (b.answer id r).Lossless := by
    intro r hitem hdone
    have hsame := received_answer (b := b) id hitem
    refine ⟨⟨xs, hholds, hbytes, hstopped, ?_⟩, h.bounded, ?_, ?_, ?_, h.awake⟩
    · rw [hsame]
      exact hreceived
    · rw [hsame]
      exact h.inOrder
    · intro i hi
      rw [hsame]
      rcases List.mem_append.mp hi with hi | hi
      · exact h.ending i hi
      · exact hdone (Prod.mk.inj (List.mem_singleton.mp hi)).2.symm
    · apply last_answer h.last
      intro v hv
      exact absurd hv (hitem v)
  unfold UplinkInbox.poll
  by_cases hclosed : b.closed = true
  · rw [if_pos hclosed]
    exact hplain .done (fun _ => by simp) (fun _ => .inl hclosed)
  · rw [if_neg hclosed]
    have hlive : b.closed = false := Bool.eq_false_iff.mpr hclosed
    cases xs with
    | cons e rest =>
      have hopen : b.failure = none := by
        by_contra hfailed
        have hnil := hstopped (.inl (Option.isSome_iff_ne_none.mpr hfailed))
        cases hnil
      have hsplit := hreceived hopen hlive
      obtain ⟨hfront, hrest⟩ := hholds.popFront_cons
      have hpop : b.queue.popFront = (some e, b.queue.popFront.2) := Prod.ext hfront rfl
      rw [hpop]
      dsimp only
      have hlate : ∀ i, (i, .done) ∉ b.results := by
        intro i hi
        rcases h.ending i hi with hc | ⟨-, hall⟩
        · exact hclosed hc
        · rw [← hsplit] at hall
          have hlength := congrArg List.length hall
          simp at hlength
      have hsum : b.bytes = e.bytes + (rest.map UplinkEntry.bytes).sum := by simpa using hbytes
      refine ⟨⟨rest, hrest, ?_, ?_, ?_⟩, ?_, ?_, ?_, ?_, ?_⟩
      · simp only [answer]
        omega
      · intro hno
        have hnil := hstopped hno
        cases hnil
      · intro _ _
        rw [received_answer_item, List.append_assoc]
        exact hsplit
      · have hbound := h.bounded
        simp only [answer]
        omega
      · rw [received_answer_item]
        refine ⟨rest.map UplinkEntry.value, ?_⟩
        rw [List.append_assoc]
        exact hsplit
      · intro i hi
        rcases List.mem_append.mp hi with hi | hi
        · exact absurd hi (hlate i)
        · cases (Prod.mk.inj (List.mem_singleton.mp hi)).2
      · apply last_answer h.last
        intro v _
        exact hlate
      · intro hwake
        have hempty := (h.awake hwake).1
        have hcount := hempty.count.symm.trans hholds.count
        simp at hcount
    | nil =>
      rw [hholds.popFront_nil]
      dsimp only
      split
      · exact hplain _ (fun _ => by simp) (fun hr => by cases hr)
      · rename_i hfailure
        by_cases hended : b.ended = true
        · rw [if_pos hended]
          refine hplain .done (fun _ => by simp) (fun _ => .inr ⟨hended, ?_⟩)
          simpa using hreceived hfailure hlive
        · rw [if_neg hended]
          by_cases hwake : b.wake.isSome
          · rw [if_pos hwake]
            exact hplain _ (fun _ => by simp) (fun hr => by cases hr)
          · rw [if_neg hwake]
            exact ⟨⟨[], hholds, hbytes, hstopped, hreceived⟩, h.bounded, h.inOrder, h.ending,
              h.last, fun _ => ⟨hholds, hfailure, hlive, Bool.eq_false_iff.mpr hended⟩⟩

theorem Lossless.next (h : b.Lossless) : b.next.Lossless := by
  unfold UplinkInbox.next
  apply Lossless.poll
  exact ⟨h.queued, h.bounded, h.inOrder, h.ending, h.last, h.awake⟩

theorem Lossless.resume (h : b.Lossless) (id : ℕ) : (b.resume id).Lossless := by
  unfold UplinkInbox.resume
  apply Lossless.poll
  exact ⟨h.queued, h.bounded, h.inOrder, h.ending, h.last, h.awake⟩

end UplinkInbox

end Gateway

end TianmaCoder
