import TianmaCoder.Gateway.StreamTold

/-!
# One outcome for every stream

In every run of a connection each stream it opens sends the items of its source in order and
then what its verdict says, once, and nothing follows for its id until the id is opened again.
Its reader loses no item that was accepted while it reads. An item after the end, or beyond the
limit, fails the stream it is for and no other, if the uplink of that stream is still open.

## Main definitions

* `Gateway.StreamMux.Multiplexed` — what holds of a connection at every moment.

## Main results

* `Gateway.StreamMux.streams_multiplexed` — it holds in every run.
-/

namespace TianmaCoder

namespace Gateway

namespace StreamMux

variable {α υ ε ρ φ : Type}

/-- The frames sent for the stream `i`. -/
def framesOf (i : ℕ) (trace : List (Event υ φ)) : List (ServerMessage υ φ) :=
  trace.filterMap fun
    | .sent j _ message => if j = i then some message else none
    | .opened _ _ => none

/-- The messages of the stream `i` that wait for the socket. -/
def writesOf (i : ℕ) (writes : List (ℕ × ServerMessage υ φ)) : List (ServerMessage υ φ) :=
  (writes.filter fun w => w.1 = i).map Prod.snd

def Event.index : Event υ φ → ℕ
  | .opened i _ | .sent i _ _ => i

/-- The stream that an id stands for on the wire after an event: the one that was opened last,
until its terminal frame. -/
def liveAfter (streamId : String) (live : Option ℕ) : Event υ φ → Option ℕ
  | .opened i id => if id = streamId then some i else live
  | .sent _ id message => if id = streamId ∧ message.isTerminal then none else live

def live (trace : List (Event υ φ)) (streamId : String) : Option ℕ :=
  trace.foldl (liveAfter streamId) none

/-- Every frame is sent while its stream is what its id stands for. -/
def Legal (trace : List (Event υ φ)) : Prop :=
  ∀ pre i id message post, trace = pre ++ .sent i id message :: post → live pre id = some i

/-- The uplink of a stream takes items. -/
def ActiveStream.UplinkOpen (st : ActiveStream α υ ε ρ φ) : Prop :=
  st.inbox.failure = none ∧ st.inbox.closed = false

/-- An item of so many bytes violates the protocol of the uplink. -/
def ActiveStream.Violates (st : ActiveStream α υ ε ρ φ) (frameBytes : ℕ) : Prop :=
  st.inbox.ended = true ∨ st.inbox.maxBytes < st.inbox.bytes + frameBytes

/-- What holds of a connection at every moment. -/
structure Multiplexed (carrier : Carrier υ ε ρ φ) (s : State α υ ε ρ φ) : Prop where
  /-- Nothing is sent for an id after a terminal frame until it is opened again. -/
  legal : Legal s.trace
  /-- A stream sends the items of its source in order and then the frames of its verdict. -/
  told : ∀ (i : ℕ) st, s.streams[i]? = some st → Told carrier s.isOpen st
  sent : ∀ (i : ℕ) st, s.streams[i]? = some st → framesOf i s.trace <+: st.messages
  /-- A finished stream has sent them all, unless the socket has closed. -/
  finished : ∀ (i : ℕ) st, s.streams[i]? = some st → st.pump = .done → s.isOpen = true →
    framesOf i s.trace = st.messages
  /-- A violation of an open uplink fails that stream, and changes nothing else. -/
  violation : ∀ (i : ℕ) st streamId value frameBytes, s.lookup streamId = some i →
    s.streams[i]? = some st → st.UplinkOpen → st.Violates frameBytes → s.socket ≠ .closed →
    ∃ v, step carrier s (.receive (.item streamId value frameBytes)) =
      some { s with streams := s.streams.set i { st.abortWith (.violation v) with
        inbox := st.inbox.fail (.violation v) } }
  /-- A stream that a violation aborted ends with exactly one Remote failure. -/
  violated : ∀ (i : ℕ) st v, s.streams[i]? = some st → st.abort = some (.violation v) →
    st.inbox.failure = some (.violation v) → st.pump = .done → s.isOpen = true →
    ∃ (vs : List υ) (wire : φ), framesOf i s.trace = vs.map .item ++ [.error wire] ∧
      carrier.failure (.reason (.violation v)) = some wire

/-- The invariant of a connection; `held` is a stream between the write of its message and the
turn of its pump. -/
structure Kept (carrier : Carrier υ ε ρ φ) (s : State α υ ε ρ φ) (held : Option ℕ) : Prop where
  legal : Legal s.trace
  told : ∀ (i : ℕ) st, s.streams[i]? = some st → Told carrier s.isOpen st
  sent : ∀ (i : ℕ) st, s.streams[i]? = some st → framesOf i s.trace <+: st.messages ∧
    (s.isOpen = true → framesOf i s.trace ++ writesOf i s.writes = st.messages)
  /-- A pump waits for exactly one message. -/
  awaited : ∀ (i : ℕ) st, s.streams[i]? = some st →
    (writesOf i s.writes).length + (if s.inflight = some i then 1 else 0) =
      if st.pump.isAwaiting = true ∧ held ≠ some i then 1 else 0
  unlisted : ∀ (i : ℕ) st, s.streams[i]? = some st → st.listed = false → st.pump = .done
  distinct : ∀ (i j : ℕ) st st', s.streams[i]? = some st → s.streams[j]? = some st' →
    st.listed = true → st'.listed = true → st.streamId = st'.streamId → i = j
  bounded : (∀ e ∈ s.trace, e.index < s.streams.length) ∧
    (∀ w ∈ s.writes, w.1 < s.streams.length) ∧ ∀ i, s.inflight = some i → i < s.streams.length
  live : ∀ (i : ℕ) st, s.streams[i]? = some st → st.listed = true →
    live s.trace st.streamId =
      if (framesOf i s.trace).any ServerMessage.isTerminal then none else some i

/-! ### The trace and the queue of writes -/

@[simp] theorem framesOf_append (i : ℕ) (xs ys : List (Event υ φ)) :
    framesOf i (xs ++ ys) = framesOf i xs ++ framesOf i ys := List.filterMap_append

@[simp] theorem framesOf_opened (i j : ℕ) (id : String) :
    framesOf i [(.opened j id : Event υ φ)] = [] := rfl

theorem framesOf_sent (i j : ℕ) (id : String) (m : ServerMessage υ φ) :
    framesOf i [.sent j id m] = if j = i then [m] else [] := by
  unfold framesOf
  split <;> rename_i h <;> simp [h]

variable {i : ℕ}

theorem framesOf_eq_nil {trace : List (Event υ φ)} (h : ∀ e ∈ trace, e.index < i) :
    framesOf i trace = [] := by
  unfold framesOf
  rw [List.filterMap_eq_nil_iff]
  intro e he
  have hlt := h e he
  cases e with
  | opened j id => rfl
  | sent j id m =>
    have hne : j ≠ i := Nat.ne_of_lt hlt
    simp [hne]

@[simp] theorem writesOf_append (i : ℕ) (xs ys : List (ℕ × ServerMessage υ φ)) :
    writesOf i (xs ++ ys) = writesOf i xs ++ writesOf i ys := by
  simp [writesOf]

theorem writesOf_cons (i j : ℕ) (m : ServerMessage υ φ) (ws : List (ℕ × ServerMessage υ φ)) :
    writesOf i ((j, m) :: ws) = if j = i then m :: writesOf i ws else writesOf i ws := by
  unfold writesOf
  split <;> rename_i h <;> simp [h]

theorem writesOf_eq_nil {ws : List (ℕ × ServerMessage υ φ)} (h : ∀ w ∈ ws, w.1 < i) :
    writesOf i ws = [] := by
  unfold writesOf
  rw [List.map_eq_nil_iff, List.filter_eq_nil_iff]
  intro w hw
  have hlt := h w hw
  simpa using Nat.ne_of_lt hlt

theorem live_concat (trace : List (Event υ φ)) (e : Event υ φ) (id : String) :
    live (trace ++ [e]) id = liveAfter id (live trace id) e := by
  simp [live]

theorem legal_concat {trace : List (Event υ φ)} {e : Event υ φ} (h : Legal trace)
    (he : ∀ i id m, e = .sent i id m → live trace id = some i) : Legal (trace ++ [e]) := by
  intro pre i id m post hsplit
  rcases List.eq_nil_or_concat post with rfl | ⟨init, x, hpost⟩
  · obtain ⟨hpre, hx⟩ := List.append_inj' hsplit rfl
    rw [← hpre]
    exact he i id m (List.singleton_inj.mp hx)
  · rw [List.concat_eq_append] at hpost
    subst post
    have hsplit' : trace ++ [e] = (pre ++ .sent i id m :: init) ++ [x] := by
      rw [hsplit]
      simp
    exact h pre i id m init (List.append_inj' hsplit' rfl).1

/-! ### What an action keeps -/

section

variable {carrier : Carrier υ ε ρ φ} {s : State α υ ε ρ φ} {held : Option ℕ}

variable {t : State α υ ε ρ φ}

/-- Streams change one by one, each in what the wire does not see. -/
theorem Kept.pointwise (h : Kept carrier s held) (hlength : t.streams.length = s.streams.length)
    (hstreams : ∀ (i : ℕ) st', t.streams[i]? = some st' → ∃ st, s.streams[i]? = some st ∧
      Told carrier t.isOpen st' ∧ st'.messages = st.messages ∧ st'.pump = st.pump ∧
      st'.streamId = st.streamId ∧ st'.listed = st.listed)
    (hopen : t.isOpen = true → s.isOpen = true) (hwrites : t.writes = s.writes)
    (hinflight : t.inflight = s.inflight) (htrace : t.trace = s.trace) : Kept carrier t held where
  legal := by rw [htrace]; exact h.legal
  told := by
    intro i st' hst'
    obtain ⟨st, -, htold, -⟩ := hstreams i st' hst'
    exact htold
  sent := by
    intro i st' hst'
    obtain ⟨st, hst, -, hmessages, -⟩ := hstreams i st' hst'
    rw [htrace, hwrites, hmessages]
    exact ⟨(h.sent i st hst).1, fun ho => (h.sent i st hst).2 (hopen ho)⟩
  awaited := by
    intro i st' hst'
    obtain ⟨st, hst, -, -, hpump, -⟩ := hstreams i st' hst'
    rw [hwrites, hinflight, hpump]
    exact h.awaited i st hst
  unlisted := by
    intro i st' hst' hlisted
    obtain ⟨st, hst, -, -, hpump, -, hsame⟩ := hstreams i st' hst'
    rw [hpump]
    exact h.unlisted i st hst (hsame.symm.trans hlisted)
  distinct := by
    intro i j st st' hst hst' hlisted hlisted' hid
    obtain ⟨u, hu, -, -, -, huid, hul⟩ := hstreams i st hst
    obtain ⟨u', hu', -, -, -, huid', hul'⟩ := hstreams j st' hst'
    exact h.distinct i j u u' hu hu' (hul.symm.trans hlisted) (hul'.symm.trans hlisted')
      (huid.symm.trans (hid.trans huid'))
  bounded := by
    rw [htrace, hwrites, hinflight, hlength]
    exact h.bounded
  live := by
    intro i st' hst' hlisted
    obtain ⟨st, hst, -, -, -, hid, hsame⟩ := hstreams i st' hst'
    rw [htrace, hid]
    exact h.live i st hst (hsame.symm.trans hlisted)

/-- One stream changes in what the wire does not see. -/
theorem Kept.update (h : Kept carrier s held) {f : ActiveStream α υ ε ρ φ → ActiveStream α υ ε ρ φ}
    (hf : ∀ st, Told carrier s.isOpen st → Told carrier s.isOpen (f st) ∧
      (f st).messages = st.messages ∧ (f st).pump = st.pump ∧ (f st).streamId = st.streamId ∧
      (f st).listed = st.listed) : Kept carrier (s.update i f) held := by
  refine h.pointwise (List.length_modify _ _ _) ?_ (fun ho => ho) rfl rfl rfl
  intro j st' hst'
  simp only [State.update, List.getElem?_modify] at hst'
  obtain ⟨st, hst, heq⟩ := Option.map_eq_some_iff.mp hst'
  refine ⟨st, hst, ?_⟩
  have htold := h.told j st hst
  by_cases hij : i = j
  · rw [if_pos hij] at heq
    rw [← heq]
    exact hf st htold
  · rw [if_neg hij] at heq
    rw [← heq]
    exact ⟨htold, rfl, rfl, rfl, rfl⟩

variable {streamId : String}

theorem Kept.dispatch (h : Kept carrier s held)
    {f : ActiveStream α υ ε ρ φ → ActiveStream α υ ε ρ φ}
    (hf : ∀ st, Told carrier s.isOpen st → Told carrier s.isOpen (f st) ∧
      (f st).messages = st.messages ∧ (f st).pump = st.pump ∧ (f st).streamId = st.streamId ∧
      (f st).listed = st.listed) : Kept carrier (s.dispatch streamId f) held := by
  unfold State.dispatch
  split
  · exact h.update hf
  · exact h

theorem Kept.close (h : Kept carrier s held) : Kept carrier s.close held := by
  unfold State.close
  split
  · have hclosed : ({ s with socket := .closing } : State α υ ε ρ φ).isOpen = true →
        s.isOpen = true := by
      intro ho
      simp [State.isOpen] at ho
    refine h.pointwise rfl ?_ hclosed rfl rfl rfl
    intro i st hst
    exact ⟨st, hst, (h.told i st hst).mono hclosed, rfl, rfl, rfl, rfl⟩
  · exact h

variable {st : ActiveStream α υ ε ρ φ}

/-- A settled pump leaves the table. -/
theorem Kept.removed (h : Kept carrier s none) (hst : s.streams[i]? = some st)
    (hdone : st.pump = .done) :
    Kept carrier (s.update i fun st => { st with listed := false }) none := by
  have hfind : ∀ (j : ℕ) st', (s.update i fun st => { st with listed := false }).streams[j]? =
      some st' → ∃ u, s.streams[j]? = some u ∧
        ((j = i ∧ st' = { u with listed := false }) ∨ (j ≠ i ∧ st' = u)) := by
    intro j st' hst'
    simp only [State.update, List.getElem?_modify] at hst'
    obtain ⟨u, hu, heq⟩ := Option.map_eq_some_iff.mp hst'
    by_cases hij : i = j
    · rw [if_pos hij] at heq
      exact ⟨u, hu, .inl ⟨hij.symm, heq.symm⟩⟩
    · rw [if_neg hij] at heq
      exact ⟨u, hu, .inr ⟨fun hji => hij hji.symm, heq.symm⟩⟩
  refine ⟨h.legal, ?_, ?_, ?_, ?_, ?_, ?_, ?_⟩
  · intro j st' hst'
    obtain ⟨u, hu, ⟨-, rfl⟩ | ⟨-, rfl⟩⟩ := hfind j st' hst'
    · have ht := h.told j u hu
      exact ⟨ht.messages, ht.active, ht.unwinding, ht.settled, ht.stopped, ht.silent, ht.violated,
        ht.aborted, ht.mapped, ht.uplink, ht.limit⟩
    · exact h.told j st' hu
  · intro j st' hst'
    obtain ⟨u, hu, ⟨-, rfl⟩ | ⟨-, rfl⟩⟩ := hfind j st' hst'
    · exact h.sent j u hu
    · exact h.sent j st' hu
  · intro j st' hst'
    obtain ⟨u, hu, ⟨-, rfl⟩ | ⟨-, rfl⟩⟩ := hfind j st' hst'
    · exact h.awaited j u hu
    · exact h.awaited j st' hu
  · intro j st' hst' hlisted
    obtain ⟨u, hu, ⟨rfl, rfl⟩ | ⟨-, rfl⟩⟩ := hfind j st' hst'
    · cases hu.symm.trans hst
      exact hdone
    · exact h.unlisted j st' hu hlisted
  · intro j k u u' hj hk hlisted hlisted' hid
    obtain ⟨v, hv, ⟨-, rfl⟩ | ⟨-, rfl⟩⟩ := hfind j u hj
    · cases hlisted
    · obtain ⟨v', hv', ⟨-, rfl⟩ | ⟨-, rfl⟩⟩ := hfind k u' hk
      · cases hlisted'
      · exact h.distinct j k u u' hv hv' hlisted hlisted' hid
  · have hlength : (s.update i fun st => { st with listed := false }).streams.length =
        s.streams.length := List.length_modify _ _ _
    rw [hlength]
    exact h.bounded
  · intro j st' hst' hlisted
    obtain ⟨u, hu, ⟨-, rfl⟩ | ⟨-, rfl⟩⟩ := hfind j st' hst'
    · cases hlisted
    · exact h.live j st' hu hlisted

theorem lookup_eq_none (h : s.lookup streamId = none) (hst : s.streams[i]? = some st)
    (hlisted : st.listed = true) : st.streamId ≠ streamId := by
  have hnone := List.findIdx?_eq_none_iff.mp h st (List.mem_of_getElem? hst)
  simpa [hlisted] using hnone

theorem Kept.openStream (h : Kept carrier s none) (streamId endpoint : String) :
    Kept carrier (s.openStream carrier streamId endpoint) none := by
  unfold State.openStream
  cases hlookup : s.lookup streamId with
  | some i => exact h.close
  | none =>
    rw [if_neg (by simp)]
    obtain ⟨htrace, hwrites, hinflight⟩ := h.bounded
    -- a stream of the new state is an old one, or the one that was opened
    have hcases : ∀ {i : ℕ} {st : ActiveStream α υ ε ρ φ} {x : ActiveStream α υ ε ρ φ},
        (s.streams ++ [x])[i]? = some st → s.streams[i]? = some st ∨ i = s.streams.length ∧ st = x := by
      intro i st x hst
      by_cases hlt : i < s.streams.length
      · rw [List.getElem?_append_left hlt] at hst
        exact .inl hst
      · rw [List.getElem?_append_right (by omega)] at hst
        obtain ⟨hi, hx⟩ := List.getElem?_eq_some_iff.mp hst
        rw [List.length_singleton] at hi
        refine .inr ⟨by omega, ?_⟩
        rw [← hx]
        simp
    have hframes := framesOf_eq_nil htrace
    have hnowrites := writesOf_eq_nil hwrites
    refine ⟨?_, ?_, ?_, ?_, ?_, ?_, ?_, ?_⟩
    · apply legal_concat h.legal
      intro i id m heq
      cases heq
    · intro i st hst
      rcases hcases hst with hold | ⟨rfl, rfl⟩
      · exact h.told i st hold
      · refine ⟨⟨[], [], rfl, .inl rfl, fun _ => rfl, .inl rfl⟩, fun _ => ⟨rfl, rfl⟩,
          (fun _ hp => by cases hp), (fun hp => by cases hp), (fun hp => by cases hp),
          (fun hp => by cases hp), (fun _ hp => by cases hp), (fun _ hp => by cases hp),
          (fun _ _ hp => by cases hp), UplinkInbox.lossless_create _ _, rfl⟩
    · intro i st hst
      simp only [framesOf_append, framesOf_opened, List.append_nil]
      rcases hcases hst with hold | ⟨rfl, rfl⟩
      · exact h.sent i st hold
      · rw [hframes, hnowrites]
        exact ⟨List.prefix_rfl, fun _ => rfl⟩
    · intro i st hst
      rcases hcases hst with hold | ⟨rfl, rfl⟩
      · exact h.awaited i st hold
      · have hidle : s.inflight ≠ some s.streams.length := by
          intro heq
          have hlt := hinflight _ heq
          omega
        simp [hnowrites, hidle, Pump.isAwaiting]
    · intro i st hst hlisted
      rcases hcases hst with hold | ⟨rfl, rfl⟩
      · exact h.unlisted i st hold hlisted
      · cases hlisted
    · intro i j st st' hst hst' hlisted hlisted' hid
      rcases hcases hst with hold | ⟨rfl, rfl⟩
      · rcases hcases hst' with hold' | ⟨rfl, rfl⟩
        · exact h.distinct i j st st' hold hold' hlisted hlisted' hid
        · exact absurd hid (lookup_eq_none hlookup hold hlisted)
      · rcases hcases hst' with hold' | ⟨rfl, rfl⟩
        · exact absurd hid.symm (lookup_eq_none hlookup hold' hlisted')
        · rfl
    · rw [List.length_append, List.length_singleton]
      refine ⟨fun e he => ?_, fun w hw => ?_, fun i hi => ?_⟩
      · rcases List.mem_append.mp he with he | he
        · have hlt := htrace e he
          omega
        · rw [List.mem_singleton.mp he]
          exact Nat.lt_succ_self _
      · have hlt := hwrites w hw
        omega
      · have hlt := hinflight i hi
        omega
    · intro i st hst hlisted
      simp only [live_concat, framesOf_append, framesOf_opened, List.append_nil]
      rcases hcases hst with hold | ⟨rfl, rfl⟩
      · have hne := lookup_eq_none hlookup hold hlisted
        rw [liveAfter, if_neg (Ne.symm hne)]
        exact h.live i st hold hlisted
      · rw [hframes, liveAfter, if_pos rfl]
        rfl

/-- A pump takes a turn. -/
theorem Kept.take {t : Turn α υ ε ρ φ} (h : Kept carrier s (some i)) (hst : s.streams[i]? = some st)
    (hlisted : st.listed = true) (ht : Turned carrier s.isOpen st t) :
    Kept carrier (s.take i t) none := by
  have hlt : i < s.streams.length := (List.getElem?_eq_some_iff.mp hst).1
  -- the other streams are as they were
  have hcases : ∀ {j : ℕ} {u}, (s.streams.set i t.stream)[j]? = some u →
      j = i ∧ u = t.stream ∨ j ≠ i ∧ s.streams[j]? = some u := by
    intro j u hu
    by_cases hij : i = j
    · subst j
      rw [List.getElem?_set_self hlt] at hu
      exact .inl ⟨rfl, (Option.some.inj hu).symm⟩
    · rw [List.getElem?_set_ne hij] at hu
      exact .inr ⟨fun hji => hij hji.symm, hu⟩
  have hself : writesOf i (t.message.map fun m => (i, m)).toList = t.message.toList := by
    cases t.message <;> simp [writesOf]
  have hother : ∀ j, j ≠ i → writesOf j (t.message.map fun m => (i, m)).toList = [] := by
    intro j hj
    cases t.message <;> simp [writesOf, Ne.symm hj]
  have hidle := h.awaited i st hst
  have hheld : ¬(st.pump.isAwaiting = true ∧ some i ≠ some i) := by simp
  rw [if_neg hheld] at hidle
  have hisOpen : (s.take i t).isOpen = (s.isOpen && !t.closes) := by
    cases hcloses : t.closes <;> cases hsocket : s.socket <;>
      simp [State.take, State.close, State.isOpen, hcloses, hsocket]
  have hweak : (s.take i t).isOpen = true → s.isOpen = true := by
    rw [hisOpen]
    intro ho
    exact (Bool.and_eq_true_iff.mp ho).1
  have hfields : (s.take i t).streams = s.streams.set i t.stream ∧
      (s.take i t).writes = s.writes ++ (t.message.map fun m => (i, m)).toList ∧
      (s.take i t).inflight = s.inflight ∧ (s.take i t).trace = s.trace := by
    unfold State.take State.close
    dsimp only
    split
    · split <;> exact ⟨rfl, rfl, rfl, rfl⟩
    · exact ⟨rfl, rfl, rfl, rfl⟩
  obtain ⟨hstreams, hwrites, hinflight, htrace⟩ := hfields
  refine ⟨?_, ?_, ?_, ?_, ?_, ?_, ?_, ?_⟩
  · rw [htrace]
    exact h.legal
  · intro j u hu
    rw [hstreams] at hu
    rcases hcases hu with ⟨rfl, rfl⟩ | ⟨hji, hu⟩
    · rw [hisOpen]
      exact ht.told
    · exact (h.told j u hu).mono hweak
  · intro j u hu
    rw [hstreams] at hu
    rw [htrace, hwrites, writesOf_append]
    rcases hcases hu with ⟨rfl, rfl⟩ | ⟨hji, hu⟩
    · obtain ⟨hpre, hall⟩ := h.sent j st hst
      rw [hself, ht.messages]
      refine ⟨hpre.trans (List.prefix_append _ _), fun ho => ?_⟩
      rw [← List.append_assoc, hall (hweak ho)]
    · rw [hother j hji, List.append_nil]
      exact ⟨(h.sent j u hu).1, fun ho => (h.sent j u hu).2 (hweak ho)⟩
  · intro j u hu
    rw [hstreams] at hu
    rw [hwrites, hinflight, writesOf_append]
    rcases hcases hu with ⟨rfl, rfl⟩ | ⟨hji, hu⟩
    · rw [hself, ht.awaiting, List.length_append]
      cases t.message with
      | none => simpa using hidle
      | some m =>
        have hone : ((some m).isSome = true ∧ (none : Option ℕ) ≠ some j) := by simp
        rw [if_pos hone, Option.toList_some, List.length_singleton]
        omega
    · rw [hother j hji, List.append_nil, h.awaited j u hu]
      simp [Ne.symm hji]
  · intro j u hu hnot
    rw [hstreams] at hu
    rcases hcases hu with ⟨rfl, rfl⟩ | ⟨hji, hu⟩
    · rw [ht.listed, hlisted] at hnot
      cases hnot
    · exact h.unlisted j u hu hnot
  · intro j k u u' hu hu' hl hl' hid
    rw [hstreams] at hu hu'
    rcases hcases hu with ⟨rfl, rfl⟩ | ⟨hji, hold⟩
    · rcases hcases hu' with ⟨rfl, rfl⟩ | ⟨hki, hold'⟩
      · rfl
      · exact h.distinct j k st u' hst hold' hlisted hl' (ht.streamId.symm.trans hid)
    · rcases hcases hu' with ⟨rfl, rfl⟩ | ⟨hki, hold'⟩
      · exact h.distinct j k u st hold hst hl hlisted (hid.trans ht.streamId)
      · exact h.distinct j k u u' hold hold' hl hl' hid
  · obtain ⟨hbt, hbw, hbi⟩ := h.bounded
    rw [hstreams, hwrites, hinflight, htrace, List.length_set]
    refine ⟨hbt, fun w hw => ?_, hbi⟩
    rcases List.mem_append.mp hw with hw | hw
    · exact hbw w hw
    · obtain ⟨m, -, hm⟩ := Option.map_eq_some_iff.mp (Option.mem_toList.mp hw)
      rw [← hm]
      exact hlt
  · intro j u hu hl
    rw [hstreams] at hu
    rw [htrace]
    rcases hcases hu with ⟨rfl, rfl⟩ | ⟨hji, hu⟩
    · rw [ht.streamId]
      exact h.live j st hst hlisted
    · exact h.live j u hu hl

/-- A pump that waits for no message is free to take a turn. -/
theorem Kept.free (h : Kept carrier s none) (hst : s.streams[i]? = some st)
    (hpump : st.pump.isAwaiting = false) : Kept carrier s (some i) := by
  refine ⟨h.legal, h.told, h.sent, ?_, h.unlisted, h.distinct, h.bounded, h.live⟩
  intro j u hu
  rw [h.awaited j u hu]
  by_cases hji : i = j
  · subst j
    cases hst.symm.trans hu
    simp [hpump]
  · simp [hji]

/-- The message of a stream has left the queue or the socket. -/
theorem Kept.hold (h : Kept carrier s none) (hst : s.streams[i]? = some st)
    {writes : List (ℕ × ServerMessage υ φ)} {inflight : Option ℕ}
    (hself : (writesOf i writes).length + (if inflight = some i then 1 else 0) + 1 =
      (writesOf i s.writes).length + (if s.inflight = some i then 1 else 0))
    (hother : ∀ j, j ≠ i → writesOf j writes = writesOf j s.writes ∧
      (inflight = some j ↔ s.inflight = some j))
    (hopen : s.isOpen = true → writesOf i writes = writesOf i s.writes) (hsub : writes ⊆ s.writes)
    (hbound : ∀ j, inflight = some j → s.inflight = some j) :
    st.pump.isAwaiting = true ∧
      Kept carrier { s with writes := writes, inflight := inflight } (some i) := by
  have hone := h.awaited i st hst
  have hawaiting : st.pump.isAwaiting = true := by
    by_contra hnot
    simp only [hnot, false_and, if_false] at hone
    omega
  simp only [hawaiting, ne_eq, reduceCtorEq, not_false_eq_true, and_self, if_true] at hone
  refine ⟨hawaiting, h.legal, h.told, ?_, ?_, h.unlisted, h.distinct, ?_, h.live⟩
  · intro j u hu
    refine ⟨(h.sent j u hu).1, fun ho => ?_⟩
    have hall := (h.sent j u hu).2 ho
    by_cases hji : j = i
    · subst j
      rw [← hopen ho] at hall
      exact hall
    · rw [← (hother j hji).1] at hall
      exact hall
  · intro j u hu
    by_cases hji : j = i
    · subst j
      simp only [ne_eq, not_true_eq_false, and_false, if_false]
      omega
    · have hrest := h.awaited j u hu
      obtain ⟨hw, hi⟩ := hother j hji
      simp only [hw, hi, hrest, ne_eq, Option.some.injEq, Ne.symm hji, not_false_eq_true,
        reduceCtorEq]
  · obtain ⟨hbt, hbw, hbi⟩ := h.bounded
    exact ⟨hbt, fun w hw => hbw w (hsub hw), fun j hj => hbi j (hbound j hj)⟩

theorem length_frames_le (v : Verdict ε ρ) : (v.frames carrier).length ≤ 1 := by
  cases v with
  | ended => exact Nat.le_refl _
  | silent => exact Nat.zero_le _
  | failed e => cases carrier.failure e <;> simp [Verdict.frames, *]

theorem Told.items_before {isOpen : Bool} (h : Told carrier isOpen st)
    {xs : List (ServerMessage υ φ)} {m : ServerMessage υ φ} (hsplit : st.messages = xs ++ [m]) :
    xs.any ServerMessage.isTerminal = false := by
  obtain ⟨vs, t, hmessages, ht, -⟩ := h.messages
  have hshort : t.length ≤ 1 := by
    rcases ht with rfl | rfl
    · exact Nat.zero_le _
    · unfold ActiveStream.terminal
      split
      · exact length_frames_le _
      · exact Nat.zero_le _
  have hitems : ∀ ys : List υ, (ys.map (ServerMessage.item : υ → ServerMessage υ φ)).any
      ServerMessage.isTerminal = false := by
    intro ys
    simp [ServerMessage.isTerminal]
  have hitemsPrefix : xs <+: vs.map .item := by
    rw [hsplit] at hmessages
    have hxs : xs <+: vs.map .item ++ t := hmessages ▸ List.prefix_append xs [m]
    apply List.prefix_of_prefix_length_le hxs (List.prefix_append _ _)
    have hlength := congrArg List.length hmessages
    simp only [List.length_append, List.length_singleton] at hlength
    omega
  rw [List.any_eq_false]
  intro x hx
  have hfalse := List.any_eq_false.mp (hitems vs) x (hitemsPrefix.subset hx)
  exact hfalse

/-- The socket takes a message. -/
theorem Kept.transmit (h : Kept carrier s none) {m : ServerMessage υ φ}
    {rest : List (ℕ × ServerMessage υ φ)} (hst : s.streams[i]? = some st)
    (hidle : s.inflight = none) (hwrites : s.writes = (i, m) :: rest) (hopen : s.isOpen = true) :
    Kept carrier { s with
      writes := rest
      inflight := some i
      trace := s.trace ++ [.sent i st.streamId m] } none := by
  have htold := h.told i st hst
  have hone := h.awaited i st hst
  rw [hwrites, hidle, writesOf_cons, if_pos rfl] at hone
  have hawaiting : st.pump.isAwaiting = true := by
    by_contra hnot
    simp [hnot] at hone
  have hnil : writesOf i rest = [] := by
    simp only [hawaiting, List.length_cons, ne_eq, reduceCtorEq, not_false_eq_true, and_self,
      if_true, if_false] at hone
    exact List.eq_nil_of_length_eq_zero (by omega)
  have hlisted : st.listed = true := by
    by_contra hnot
    have hdone := h.unlisted i st hst (Bool.eq_false_iff.mpr hnot)
    rw [hdone] at hawaiting
    cases hawaiting
  have hmessages : st.messages = framesOf i s.trace ++ [m] := by
    have hall := (h.sent i st hst).2 hopen
    rw [hwrites, writesOf_cons, if_pos rfl, hnil] at hall
    exact hall.symm
  have hitems := htold.items_before hmessages
  have hlive : StreamMux.live s.trace st.streamId = some i := by
    rw [h.live i st hst hlisted, hitems]
    rfl
  refine ⟨?_, h.told, ?_, ?_, h.unlisted, h.distinct, ?_, ?_⟩
  · apply legal_concat h.legal
    intro j id m' heq
    cases heq
    exact hlive
  · intro j u hu
    simp only [framesOf_append, framesOf_sent]
    by_cases hji : i = j
    · subst j
      cases hst.symm.trans hu
      rw [if_pos rfl, hnil, List.append_nil, hmessages]
      exact ⟨List.prefix_rfl, fun _ => rfl⟩
    · have hsent := h.sent j u hu
      rw [hwrites, writesOf_cons, if_neg hji] at hsent
      rw [if_neg hji, List.append_nil]
      exact hsent
  · intro j u hu
    by_cases hji : i = j
    · subst j
      cases hst.symm.trans hu
      simp [hnil, hawaiting]
    · have hrest := h.awaited j u hu
      rw [hwrites, hidle, writesOf_cons, if_neg hji] at hrest
      simpa [hji] using hrest
  · obtain ⟨hbt, hbw, hbi⟩ := h.bounded
    have hlt : i < s.streams.length := (List.getElem?_eq_some_iff.mp hst).1
    refine ⟨fun e he => ?_, fun w hw => hbw w ?_, fun j hj => ?_⟩
    · rcases List.mem_append.mp he with he | he
      · exact hbt e he
      · rw [List.mem_singleton.mp he]
        exact hlt
    · rw [hwrites]
      exact List.mem_cons_of_mem _ hw
    · cases hj
      exact hlt
  · intro j u hu hl
    simp only [live_concat, liveAfter, framesOf_append, framesOf_sent]
    by_cases hji : i = j
    · subst j
      cases hst.symm.trans hu
      simp [hitems, hlive]
    · have hid : st.streamId ≠ u.streamId := by
        intro heq
        exact hji (h.distinct i j st u hst hu hlisted hl heq)
      simp [hid, hji, h.live j u hu hl]

theorem listed_of_ne_done (h : Kept carrier s held) (hst : s.streams[i]? = some st)
    (hpump : st.pump ≠ .done) : st.listed = true := by
  by_contra hnot
  exact hpump (h.unlisted i st hst (Bool.eq_false_iff.mpr hnot))

theorem Kept.turn {ready : Pump ε ρ → Bool} {f : ActiveStream α υ ε ρ φ → Turn α υ ε ρ φ}
    (h : Kept carrier s none)
    (hready : ∀ pump : Pump ε ρ, ready pump = true → pump.isAwaiting = false ∧ pump ≠ .done)
    (hf : ∀ st, Told carrier s.isOpen st → ready st.pump = true → Turned carrier s.isOpen st (f st))
    (ht : s.turn i ready f = some t) : Kept carrier t none := by
  unfold State.turn at ht
  split at ht
  · rename_i st hst
    by_cases hr : ready st.pump = true
    · rw [if_pos hr, Option.some.injEq] at ht
      obtain ⟨hidle, hne⟩ := hready _ hr
      rw [← ht]
      exact (h.free hst hidle).take hst (listed_of_ne_done h hst hne) (hf st (h.told i st hst) hr)
    · rw [if_neg hr] at ht
      cases ht
  · cases ht

theorem Kept.reader {f : UplinkInbox α → UplinkInbox α} (h : Kept carrier s none)
    (hf : ∀ b : UplinkInbox α, b.Lossless → (f b).Lossless ∧
      (f b).failure = b.failure ∧ (f b).maxBytes = b.maxBytes) (ht : s.reader i f = some t) :
    Kept carrier t none := by
  unfold State.reader at ht
  split at ht
  · cases ht
    apply h.update
    intro st htold
    obtain ⟨hlossless, hfailure, hlimit⟩ := hf st.inbox htold.uplink
    exact ⟨htold.moveInbox hlossless hfailure hlimit, rfl, rfl, rfl, rfl⟩
  · cases ht

theorem push_fields (st : ActiveStream α υ ε ρ φ) (value : α) (frameBytes : ℕ) :
    (st.push value frameBytes).messages = st.messages ∧
      (st.push value frameBytes).pump = st.pump ∧
      (st.push value frameBytes).streamId = st.streamId ∧
      (st.push value frameBytes).listed = st.listed := by
  unfold ActiveStream.push
  split <;> exact ⟨rfl, rfl, rfl, rfl⟩

theorem Kept.receive (h : Kept carrier s none) (message : ClientMessage α) :
    Kept carrier (s.receive carrier message) none := by
  cases message with
  | «open» streamId endpoint => exact h.openStream streamId endpoint
  | item streamId value frameBytes =>
    apply h.dispatch
    intro st htold
    exact ⟨htold.push value frameBytes, push_fields st value frameBytes⟩
  | «end» streamId =>
    apply h.dispatch
    intro st htold
    refine ⟨htold.moveInbox htold.uplink.end ?_ ?_, rfl, rfl, rfl, rfl⟩ <;>
      (unfold UplinkInbox.end; split <;> rfl)
  | cancel streamId =>
    apply h.dispatch
    intro st htold
    exact ⟨htold.stop _, rfl, rfl, rfl, rfl⟩

theorem isAwaiting_of_ready {ready : Pump ε ρ → Bool} (h : ready = Pump.isOpening ∨ ready = Pump.isPulling)
    (pump : Pump ε ρ) (hp : ready pump = true) : pump.isAwaiting = false ∧ pump ≠ .done := by
  rcases h with rfl | rfl <;> cases pump <;> simp_all [Pump.isOpening, Pump.isPulling, Pump.isAwaiting]

/-- The socket is done with the message it was writing. -/
theorem Kept.acknowledged (h : Kept carrier s none) (hst : s.streams[i]? = some st)
    (hinflight : s.inflight = some i) :
    st.pump.isAwaiting = true ∧
      Kept carrier { s with writes := s.writes, inflight := none } (some i) := by
  apply h.hold hst
  · rw [hinflight]
    simp
  · intro j hj
    rw [hinflight]
    refine ⟨rfl, ?_⟩
    simp [Ne.symm hj]
  · exact fun _ => rfl
  · exact fun _ hw => hw
  · intro j hj
    cases hj

/-- The pump that waited for a message takes its turn. -/
theorem Kept.resumed (h : Kept carrier s none) {u : State α υ ε ρ φ} {written : Bool}
    (hst : s.streams[i]? = some st) (hawaiting : st.pump.isAwaiting = true)
    (hu : Kept carrier u (some i)) (hsame : u.streams = s.streams ∧ u.isOpen = s.isOpen)
    (hlost : written = false → s.isOpen = false) :
    Kept carrier (u.take i (st.delivered carrier s.isOpen written)) none := by
  have hlisted : st.listed = true := by
    apply listed_of_ne_done h hst
    intro hdone
    rw [hdone] at hawaiting
    cases hawaiting
  have hturned := ((h.told i st hst).delivered hlost).resolve_right (by simp [hawaiting])
  rw [← hsame.2] at hturned ⊢
  exact hu.take (by rw [hsame.1]; exact hst) hlisted hturned

theorem kept_step {a : Action α υ ε ρ} (h : Kept carrier s none) (hstep : step carrier s a = some t) :
    Kept carrier t none := by
  cases a with
  | receive message =>
    by_cases hclosed : s.socket = .closed
    · rw [step, if_pos hclosed] at hstep
      cases hstep
    · rw [step, if_neg hclosed] at hstep
      cases hstep
      exact h.receive message
  | opened i =>
    exact h.turn (isAwaiting_of_ready (.inl rfl)) (fun st htold hp => htold.opened hp) hstep
  | rejected i e =>
    refine h.turn (isAwaiting_of_ready (.inl rfl)) (fun st htold hp => ?_) hstep
    have hactive := htold.active (isActive_of_isOpening hp)
    exact htold.settle hactive.1 (fun he => by cases he)
  | yields i value =>
    exact h.turn (isAwaiting_of_ready (.inr rfl)) (fun st htold hp => htold.pull hp value) hstep
  | returns i =>
    refine h.turn (isAwaiting_of_ready (.inr rfl)) (fun st htold hp => ?_) hstep
    have hactive := htold.active (isActive_of_isPulling hp)
    exact htold.settle hactive.1 (fun _ => hactive.2)
  | throws i e =>
    refine h.turn (isAwaiting_of_ready (.inr rfl)) (fun st htold hp => ?_) hstep
    have hactive := htold.active (isActive_of_isPulling hp)
    exact htold.settle hactive.1 (fun he => by cases he)
  | unwound i =>
    simp only [step] at hstep
    split at hstep
    · rename_i st hst
      split at hstep
      · rename_i e hpump
        cases hstep
        have htold := h.told i st hst
        have hfree := h.free hst (by rw [hpump]; rfl)
        have hlisted := listed_of_ne_done h hst (by simp [hpump])
        exact hfree.take hst hlisted
          (htold.settle (htold.unwinding e hpump) (fun he => by cases he))
      · cases hstep
    · cases hstep
  | transmit =>
    simp only [step] at hstep
    split at hstep
    · rename_i i m rest hidle hwrites
      split at hstep
      · rename_i st hst
        by_cases hopen : s.isOpen = true
        · rw [if_pos hopen] at hstep
          cases hstep
          exact h.transmit hst hidle hwrites hopen
        · rw [if_neg hopen] at hstep
          cases hstep
          have hclosed : s.isOpen = false := Bool.eq_false_iff.mpr hopen
          have hheld : st.pump.isAwaiting = true ∧
              Kept carrier { s with writes := rest, inflight := s.inflight } (some i) := by
            apply h.hold hst
            · rw [hwrites, writesOf_cons, if_pos rfl, List.length_cons]
              omega
            · intro j hj
              rw [hwrites, writesOf_cons, if_neg (Ne.symm hj)]
              exact ⟨rfl, Iff.rfl⟩
            · exact fun ho => absurd ho hopen
            · rw [hwrites]
              exact List.subset_cons_self _ _
            · exact fun _ hj => hj
          exact h.resumed hst hheld.1 hheld.2 ⟨rfl, rfl⟩ (fun _ => hclosed)
      · cases hstep
    · cases hstep
  | written =>
    simp only [step] at hstep
    split at hstep
    · rename_i i hinflight
      split at hstep
      · rename_i st hst
        cases hstep
        have hheld := h.acknowledged hst hinflight
        exact h.resumed hst hheld.1 hheld.2 ⟨rfl, rfl⟩ (fun hw => by cases hw)
      · cases hstep
    · cases hstep
  | lost =>
    simp only [step] at hstep
    split at hstep
    · rename_i i hinflight
      split at hstep
      · rename_i st hst
        by_cases hopen : s.isOpen = true
        · rw [if_pos hopen] at hstep
          cases hstep
        · rw [if_neg hopen] at hstep
          cases hstep
          have hheld := h.acknowledged hst hinflight
          exact h.resumed hst hheld.1 hheld.2 ⟨rfl, rfl⟩ (fun _ => Bool.eq_false_iff.mpr hopen)
      · cases hstep
    · cases hstep
  | removed i =>
    simp only [step] at hstep
    split at hstep
    · rename_i st hst
      split at hstep
      · rename_i hdone
        cases hstep
        apply h.removed hst
        cases hp : st.pump <;> rw [hp] at hdone <;> first | rfl | cases hdone
      · cases hstep
    · cases hstep
  | aborts i failure =>
    simp only [step] at hstep
    split at hstep
    · cases hstep
      apply h.update
      intro st htold
      cases failure with
      | some r => exact ⟨htold.abortWith (.inl rfl), rfl, rfl, rfl, rfl⟩
      | none => exact ⟨htold.abortWith (.inl rfl), rfl, rfl, rfl, rfl⟩
    · cases hstep
  | iterates i =>
    refine h.reader (f := fun b => b.iterator.toOption.getD b) (fun b hb => ?_) hstep
    cases hi : b.iterator with
    | error e => exact ⟨hb, rfl, rfl⟩
    | ok b' =>
      refine ⟨hb.iterator hi, ?_⟩
      change b'.failure = b.failure ∧ b'.maxBytes = b.maxBytes
      unfold UplinkInbox.iterator at hi
      split at hi
      · cases hi
      · cases hi
        exact ⟨rfl, rfl⟩
  | reads i =>
    refine h.reader (fun b hb => ⟨hb.next, ?_⟩) hstep
    exact failure_poll { b with reads := b.reads + 1 } b.reads
  | resumes i id =>
    simp only [step] at hstep
    split at hstep
    · rename_i st hst
      split at hstep
      · refine h.reader (fun b hb => ⟨hb.resume id, ?_⟩) hstep
        exact failure_poll { b with woken := b.woken.erase id } id
      · cases hstep
    · cases hstep
  | stopsReading i => exact h.reader (fun b hb => ⟨hb.return, rfl, rfl⟩) hstep
  | closing =>
    by_cases hopened : s.socket = .opened
    · rw [step, if_pos hopened] at hstep
      cases hstep
      exact h.close
    · rw [step, if_neg hopened] at hstep
      cases hstep
  | closed =>
    by_cases hclosed : s.socket = .closed
    · rw [step, if_pos hclosed] at hstep
      cases hstep
    · rw [step, if_neg hclosed] at hstep
      cases hstep
      refine h.pointwise (List.length_map _) ?_ (fun ho => ?_) rfl rfl rfl
      · intro i st' hst'
        rw [List.getElem?_map] at hst'
        obtain ⟨st, hst, rfl⟩ := Option.map_eq_some_iff.mp hst'
        refine ⟨st, hst, ?_⟩
        have htold : Told carrier false st := (h.told i st hst).mono (fun ho => by cases ho)
        split
        · exact ⟨htold.stop _, rfl, rfl, rfl, rfl⟩
        · exact ⟨htold, rfl, rfl, rfl, rfl⟩
      · simp [State.isOpen] at ho

theorem kept_initial : Kept carrier (initial : State α υ ε ρ φ) none := by
  have hnone : ∀ (i : ℕ) st, (initial : State α υ ε ρ φ).streams[i]? ≠ some st := by
    intro i st hst
    cases hst
  refine ⟨?_, fun i st hst => absurd hst (hnone i st), fun i st hst => absurd hst (hnone i st),
    fun i st hst => absurd hst (hnone i st), fun i st hst => absurd hst (hnone i st),
    fun i _ st _ hst => absurd hst (hnone i st), ?_, fun i st hst => absurd hst (hnone i st)⟩
  · intro pre i id m post hsplit
    have hlength := congrArg List.length hsplit
    simp [initial] at hlength
  · refine ⟨fun e he => ?_, fun w hw => ?_, fun i hi => ?_⟩
    · cases he
    · cases hw
    · cases hi

theorem modify_eq_set {xs : List (ActiveStream α υ ε ρ φ)} (h : xs[i]? = some st)
    (f : ActiveStream α υ ε ρ φ → ActiveStream α υ ε ρ φ) : xs.modify i f = xs.set i (f st) := by
  apply List.ext_getElem?
  intro j
  rw [List.getElem?_modify, List.getElem?_set]
  by_cases hij : i = j
  · subst j
    obtain ⟨hlt, hget⟩ := List.getElem?_eq_some_iff.mp h
    simp [hlt, hget]
  · simp [hij]

theorem step_violation {value : α} {frameBytes : ℕ} (hlookup : s.lookup streamId = some i)
    (hst : s.streams[i]? = some st) (hopen : st.UplinkOpen) (hviolates : st.Violates frameBytes)
    (hsocket : s.socket ≠ .closed) :
    ∃ v, step carrier s (.receive (.item streamId value frameBytes)) =
      some { s with streams := s.streams.set i { st.abortWith (.violation v) with
        inbox := st.inbox.fail (.violation v) } } := by
  obtain ⟨v, hpush⟩ := UplinkInbox.push_of_violation (v := value) hopen hviolates
  refine ⟨v, ?_⟩
  have hpushed : st.push value frameBytes = { st.abortWith (.violation v) with
      inbox := st.inbox.fail (.violation v) } := by
    simp only [ActiveStream.push, hpush]
  rw [step, if_neg hsocket]
  simp only [State.receive, State.dispatch, hlookup, State.update]
  rw [modify_eq_set hst, hpushed]

theorem Kept.finished (h : Kept carrier s none) (hst : s.streams[i]? = some st)
    (hdone : st.pump = .done) (hopen : s.isOpen = true) : framesOf i s.trace = st.messages := by
  have hidle := h.awaited i st hst
  simp only [hdone, Pump.isAwaiting, Bool.false_eq_true, false_and, if_false] at hidle
  have hnil : writesOf i s.writes = [] := List.eq_nil_of_length_eq_zero (by omega)
  have hall := (h.sent i st hst).2 hopen
  rw [hnil, List.append_nil] at hall
  exact hall

theorem Kept.violated (h : Kept carrier s none) {v : Violation} (hst : s.streams[i]? = some st)
    (habort : st.abort = some (.violation v)) (hfailure : st.inbox.failure = some (.violation v))
    (hdone : st.pump = .done) (hopen : s.isOpen = true) :
    ∃ (vs : List υ) (wire : φ), framesOf i s.trace = vs.map .item ++ [.error wire] ∧
      carrier.failure (.reason (.violation v)) = some wire := by
  have htold := h.told i st hst
  obtain ⟨w, hw⟩ := Option.isSome_iff_exists.mp
    (htold.settled (by rw [hdone]; rfl) (fun e he => by rw [hdone] at he; cases he))
  obtain ⟨r, hr, -, hverdict⟩ := htold.violated v hfailure
  rw [habort, Option.some.injEq] at hr
  subst r
  have hfailed : st.verdict = some (.failed (.reason (.violation v))) := by
    rw [hw, hverdict w hw]
    rfl
  obtain ⟨wire, hwire⟩ := Option.isSome_iff_exists.mp (htold.mapped hopen _ hfailed)
  obtain ⟨vs, t, hmessages, -, hall, -⟩ := htold.messages
  refine ⟨vs, wire, ?_, hwire⟩
  rw [h.finished hst hdone hopen, hmessages, hall hopen]
  simp [ActiveStream.terminal, hfailed, Verdict.frames, hwire]

theorem Kept.multiplexed (h : Kept carrier s none) : Multiplexed carrier s where
  legal := h.legal
  told := h.told
  sent := fun i st hst => (h.sent i st hst).1
  finished := fun _ _ hst hdone hopen => h.finished hst hdone hopen
  violation := fun _ _ _ _ _ hlookup hst hopen hviolates hsocket =>
    step_violation hlookup hst hopen hviolates hsocket
  violated := fun _ _ _ hst habort hfailure hdone hopen =>
    h.violated hst habort hfailure hdone hopen

/-- In every run of a connection, whatever its clients, sources and readers do. -/
theorem streams_multiplexed (carrier : Carrier υ ε ρ φ) {as : List (Action α υ ε ρ)}
    {s : State α υ ε ρ φ} (hrun : Transition.run (step carrier) initial as = some s) :
    Multiplexed carrier s := by
  have hkept : Kept carrier s none :=
    Transition.run_induction (fun _ _ _ => kept_step) kept_initial hrun
  exact hkept.multiplexed

end

/-! ### Runs -/

/-- Numbers in both directions, failures told by their code, an inbox of eight bytes. -/
def numbers : Carrier ℕ String String String where
  serializable _ := true
  failure
    | .source e => some e
    | .reason (.violation v) => some v.code
    | .reason _ => none
    | .error message => some message
  streamInboxBytes := 8

/-- The client sends an item after the end while the source is still pumped. -/
def lateItem (stops : Bool) : List (Action ℕ ℕ String String) :=
  [.receive (.open "a" "n/m"), .opened 0, .iterates 0, .receive (.item "a" 7 4), .reads 0,
    .receive (.end "a")] ++ (if stops then [.stopsReading 0] else []) ++
    [.receive (.item "a" 8 4), .yields 0 1, .transmit, .written, .returns 0, .transmit, .written,
      .removed 0]

theorem streams_multiplexed_late : ∃ s : State ℕ ℕ String String String,
    Transition.run (step numbers) initial (lateItem false) = some s ∧
      framesOf 0 s.trace = [.item 1, .error "gateway/protocol"] ∧ Multiplexed numbers s := by
  obtain ⟨s, hrun, hframes⟩ : ∃ s : State ℕ ℕ String String String,
      Transition.run (step numbers) initial (lateItem false) = some s ∧
        framesOf 0 s.trace = [.item 1, .error "gateway/protocol"] := ⟨_, rfl, rfl⟩
  exact ⟨s, hrun, hframes, streams_multiplexed numbers hrun⟩

/-- The same item passes once the reader has stopped: the stream ends as its source does. -/
theorem late_item_passes : ∃ s : State ℕ ℕ String String String,
    Transition.run (step numbers) initial (lateItem true) = some s ∧
      framesOf 0 s.trace = [.item 1, .end] ∧
      ∀ st ∈ s.streams, st.inbox.ended = true ∧ st.abort = none :=
  ⟨_, rfl, rfl, by decide⟩

end StreamMux

end Gateway

end TianmaCoder
