import TianmaCoder.Session.StoreSound

/-!
# Every run pairs the lifecycle of its entries

Whatever is called, also by listeners while dispatches are in progress, and whichever of them
throw: every entry is announced at most once; it is disposed of exactly when it has left the
store after its announcement began, once and when none of its dispatches is open; both maps
hold the same entries; and an entry leaves the store through its own capability only.

## Main definitions

* `SessionStore.LifecycleLaw` — what holds at every point of a run.
* `SessionStore.Releases` — the moves that can take an entry out of the store.

## Main results

* `SessionStore.lifecycle_paired` — every run keeps the law.
-/

namespace TianmaCoder

namespace SessionStore

open KeyedTrace

variable {projections : List SessionMessageProjection} {s s' : SessionStore} {e : ℕ}
  {x : SessionEntry}

/-- The invariant: the store is sound and no detach is due. -/
structure Kept (s : SessionStore) : Prop where
  sound : s.Sound
  settled : ∀ {e : ℕ} {x : SessionEntry}, s.entries.read e = some x → s.Settled e x

/-- Entry `e` is in the store. -/
def Live (s : SessionStore) (e : ℕ) : Prop :=
  ∃ x, s.entries.read e = some x ∧ s.store.lookup x.id = some e

/-- Entry `e` was in the store and has left it. -/
def Left (s : SessionStore) (e : ℕ) : Prop :=
  ∃ x, s.entries.read e = some x ∧ s.store.lookup x.id ≠ some e

theorem Moved.kept (h : Moved e s s') (hs : s.Kept) : s'.Kept where
  sound := h.sound
  settled := by
    intro k y hy
    by_cases hk : k = e
    · subst hk
      exact h.settled hy
    · rw [h.frame.entries hk] at hy
      exact h.frame.settled hk hy (hs.settled hy)

/-- A step that touches another entry alone leaves an entry in the store. -/
theorem Frame.live {k : ℕ} (h : Frame e s s') (hk : k ≠ e) (hlive : s.Live k) : s'.Live k := by
  obtain ⟨y, hy, hlookup⟩ := hlive
  refine ⟨y, (h.entries hk).trans hy, ?_⟩
  have hheld := h.held hk hy
  rw [held_eq_true.mpr hlookup] at hheld
  exact held_eq_true.mp hheld

/-- A step that changes neither the entries, the maps, the trace nor which dispatches are open. -/
structure Still (s s' : SessionStore) : Prop where
  entries : s'.entries = s.entries
  store : s'.store = s.store
  attachments : s'.attachments = s.attachments
  trace : s'.trace = s.trace
  created : ∀ k, s'.dispatches.countP (Dispatch.isCreated k)
    = s.dispatches.countP (Dispatch.isCreated k)
  event : ∀ k, s'.dispatches.countP (Dispatch.isEvent k)
    = s.dispatches.countP (Dispatch.isEvent k)

theorem Still.frame (h : Still s s') (e : ℕ) : Frame e s s' where
  entries _ := by rw [h.entries]
  word _ := by rw [h.trace]
  created _ := h.created _
  event _ := h.event _
  held _ _ := by rw [held, held, h.store]

theorem Still.live (h : Still s s') (hlive : s.Live e) : s'.Live e := by
  obtain ⟨y, hy, hlookup⟩ := hlive
  exact ⟨y, by rw [h.entries, hy], by rw [h.store, hlookup]⟩

theorem Still.kept (h : Still s s') (hs : s.Kept) : s'.Kept where
  sound := by
    constructor
    · constructor
      · intro id k hk
        rw [h.store] at hk
        rw [h.entries, h.attachments]
        exact hs.sound.indexed.store hk
      · intro session k hk
        rw [h.attachments] at hk
        rw [h.entries, h.store]
        exact hs.sound.indexed.attachments hk
    · intro k y hy
      have hy' := hy
      rw [h.entries] at hy'
      exact (h.frame (k + 1)).traced (Nat.ne_add_one k) hy' (hs.sound.entries hy')
    · intro k hnone
      rw [h.entries] at hnone
      rw [h.trace, h.created, h.event]
      exact hs.sound.fresh hnone
  settled := by
    intro k y hy
    rw [h.entries] at hy
    exact (h.frame (k + 1)).settled (Nat.ne_add_one k) hy (hs.settled hy)

/-- The step keeps the invariant and takes no entry out of the store. -/
structure Advances (s s' : SessionStore) : Prop where
  kept : s'.Kept
  live : ∀ {e : ℕ}, s.Live e → s'.Live e

theorem Advances.trans {s'' : SessionStore} (h : Advances s s') (h' : Advances s' s'') :
    Advances s s'' where
  kept := h'.kept
  live hlive := h'.live (h.live hlive)

theorem Advances.refl (hs : s.Kept) : Advances s s := ⟨hs, id⟩

theorem Still.advances (h : Still s s') (hs : s.Kept) : Advances s s' := ⟨h.kept hs, h.live⟩

/-- A step that touches one entry advances if that entry stays. -/
theorem Moved.advances (h : Moved e s s') (hs : s.Kept) (he : s.Live e → s'.Live e) :
    Advances s s' where
  kept := h.kept hs
  live := by
    intro k hlive
    by_cases hk : k = e
    · subst hk
      exact he hlive
    · exact h.frame.live hk hlive

/-! ## Calls -/

/-- The maps after a free id and a free session were entered. -/
theorem Indexed.enter (h : s.Indexed) {session : ℕ} {object : SessionObject}
    (hid : s.store.lookup object.id = none) (hsession : s.attachments.lookup session = none) :
    (s.enter session object).1.Indexed := by
  simp only [SessionStore.enter, hid, hsession, Option.isSome_none, Bool.false_eq_true, if_false]
  have hold : ∀ {k : ℕ} {y : SessionEntry}, s.entries.read k = some y →
      (s.entries.alloc { id := object.id, session := session }).2.read k = some y :=
    fun hy => (Heap.read_alloc (Heap.lt_of_read hy)).trans hy
  constructor
  · intro id k hk
    rw [OrderedMap.lookup_set] at hk
    by_cases hid' : id = object.id
    · rw [if_pos hid'] at hk
      cases hk
      refine ⟨_, Heap.read_alloc_self, hid'.symm, ?_⟩
      rw [OrderedMap.lookup_set, if_pos rfl]
    · rw [if_neg hid'] at hk
      obtain ⟨y, hy, hyid, hyatt⟩ := h.store hk
      refine ⟨y, hold hy, hyid, ?_⟩
      have hys : y.session ≠ session := by
        intro heq
        rw [heq, hsession] at hyatt
        cases hyatt
      rw [OrderedMap.lookup_set, if_neg hys, hyatt]
  · intro session' k hk
    rw [OrderedMap.lookup_set] at hk
    by_cases hsession' : session' = session
    · rw [if_pos hsession'] at hk
      cases hk
      refine ⟨_, Heap.read_alloc_self, hsession'.symm, ?_⟩
      rw [OrderedMap.lookup_set, if_pos rfl]
    · rw [if_neg hsession'] at hk
      obtain ⟨y, hy, hysession, hystore⟩ := h.attachments hk
      refine ⟨y, hold hy, hysession, ?_⟩
      have hyi : y.id ≠ object.id := by
        intro heq
        rw [heq, hid] at hystore
        cases hystore
      rw [OrderedMap.lookup_set, if_neg hyi, hystore]

/-- Entering a free id and a free session touches the new entry alone. -/
theorem Sound.enter (h : s.Sound) {session : ℕ} {object : SessionObject}
    (hid : s.store.lookup object.id = none) (hsession : s.attachments.lookup session = none) :
    Moved s.entries.cells.length s (s.enter session object).1 := by
  have hindexed := h.indexed.enter hid hsession
  simp only [SessionStore.enter, hid, hsession, Option.isSome_none, Bool.false_eq_true,
    if_false] at hindexed ⊢
  have hframe : Frame s.entries.cells.length s (s.enter session object).1 := by
    simp only [SessionStore.enter, hid, hsession, Option.isSome_none, Bool.false_eq_true, if_false]
    refine ⟨Heap.read_alloc_of_ne, fun _ => rfl, fun _ => rfl, fun _ => rfl, ?_⟩
    intro k y hk _
    simp only [held, OrderedMap.lookup_set]
    by_cases hy : y.id = object.id
    · rw [if_pos hy, hy, hid]
      simpa [Heap.alloc] using hk.symm
    · rw [if_neg hy]
  simp only [SessionStore.enter, hid, hsession, Option.isSome_none, Bool.false_eq_true,
    if_false] at hframe
  obtain ⟨hword, hcreated, hevent⟩ :=
    h.fresh (List.getElem?_eq_none (Nat.le_refl s.entries.cells.length))
  refine ⟨hframe, h.of_frame hframe hindexed Heap.read_alloc_self ?_, ?_⟩
  · have hheld : ∀ s' : SessionStore,
        s'.store = OrderedMap.set object.id s.entries.cells.length s.store →
        s'.held s.entries.cells.length { id := object.id, session := session } = true := by
      intro s' hs'
      rw [held_eq_true, hs', OrderedMap.lookup_set, if_pos rfl]
    constructor
    · rw [Follows, phase, hheld _ rfl, hword]
      rfl
    · exact hcreated
    · exact hevent
    · exact fun _ => ⟨hheld _ rfl, rfl⟩
    · exact fun _ => hheld _ rfl
  · intro y hy
    have hnew := Heap.read_alloc_self.symm.trans hy
    cases hnew
    intro hentered
    cases hentered

theorem advances_enter (hs : s.Kept) (session : ℕ) (object : SessionObject) :
    Advances s (s.enter session object).1 := by
  by_cases hid : s.store.lookup object.id = none
  · by_cases hsession : s.attachments.lookup session = none
    · refine (hs.sound.enter hid hsession).advances hs ?_
      rintro ⟨y, hy, _⟩
      have hlt := Heap.lt_of_read hy
      omega
    · have hsome := Option.isSome_iff_ne_none.mpr hsession
      simp only [SessionStore.enter, hid, hsome, Option.isSome_none, Bool.false_eq_true, if_false,
        if_true]
      exact Advances.refl hs
  · have hsome := Option.isSome_iff_ne_none.mpr hid
    simp only [SessionStore.enter, hsome, if_true]
    exact Advances.refl hs

variable (projections) in
theorem advances_prepare (hs : s.Kept) (id : Option String) (options : PrepareSessionOptions)
    (now : ℤ) : Advances s (s.prepare projections id options now).1 := by
  refine Still.advances ?_ hs
  simp only [SessionStore.prepare]
  split
  · exact ⟨rfl, rfl, rfl, rfl, fun _ => rfl, fun _ => rfl⟩
  · split <;> exact ⟨rfl, rfl, rfl, rfl, fun _ => rfl, fun _ => rfl⟩

theorem attached_spec {session : ℕ} (h : s.attached session = some (e, x)) :
    s.attachments.lookup session = some e ∧ s.entries.read e = some x := by
  simp only [attached, Option.bind_eq_some_iff, Option.map_eq_some_iff, Prod.mk.injEq] at h
  obtain ⟨k, hk, y, hy, rfl, rfl⟩ := h
  exact ⟨hk, hy⟩

theorem liveEntryFor_spec {session : ℕ} {object : SessionObject}
    (h : s.liveEntryFor session object = .ok (e, x)) :
    s.entries.read e = some x ∧ s.held e x = true := by
  unfold liveEntryFor at h
  cases hattached : s.attached session with
  | none =>
    rw [hattached] at h
    cases h
  | some found =>
    rw [hattached] at h
    dsimp only at h
    by_cases hlookup : s.store.lookup found.2.id = some found.1
    · rw [if_neg (not_not.mpr hlookup)] at h
      cases h
      exact ⟨(attached_spec hattached).2, held_eq_true.mpr hlookup⟩
    · rw [if_pos hlookup] at h
      cases h

theorem advances_of_begin (hs : s.Kept) (hx : s.entries.read e = some x)
    (hbegin : Frame e s s' ∧ s'.Sound) {x' : SessionEntry}
    (hx' : s'.entries.read e = some x') (hstore : s'.store = s.store) (hid : x'.id = x.id)
    (hentered : x'.entered = x.entered) (hrequested : x'.detachRequested = x.detachRequested)
    (hopen : (x'.announcing || x'.appending) = true) : Advances s s' := by
  have hheld : s'.held e x' = s.held e x := by rw [held, held, hstore, hid]
  have hmoved : Moved e s s' := by
    refine ⟨hbegin.1, hbegin.2, ?_⟩
    intro y hy hused hlive
    cases hx'.symm.trans hy
    rw [hentered] at hused
    rw [hheld] at hlive
    rw [hrequested]
    exact ⟨(hs.settled hx hused hlive).1, hopen⟩
  refine hmoved.advances hs ?_
  rintro ⟨y, hy, hlookup⟩
  cases hx.symm.trans hy
  exact ⟨x', hx', by rw [hstore, hid, hlookup]⟩

theorem advances_announce (hs : s.Kept) (session : ℕ) (object : SessionObject) (rollback : Bool) :
    Advances s (s.announce session object rollback).1 := by
  unfold SessionStore.announce
  cases hlive : s.liveEntryFor session object with
  | error message => exact Advances.refl hs
  | ok found =>
    obtain ⟨e, x⟩ := found
    dsimp only
    by_cases hannounced : (x.announced || x.announcing) = true
    · rw [if_pos hannounced]
      exact Advances.refl hs
    · rw [if_neg hannounced]
      rw [Bool.or_eq_true, not_or, Bool.not_eq_true, Bool.not_eq_true] at hannounced
      obtain ⟨hx, hheld⟩ := liveEntryFor_spec hlive
      exact advances_of_begin hs hx
        (hs.sound.beginCreated hx hheld hannounced.1 hannounced.2 rollback)
        (Heap.read_write_self (Heap.lt_of_read hx)) rfl rfl rfl rfl rfl

theorem still_setSession (s : SessionStore) (session : ℕ) (object : SessionObject)
    (value : Session) : Still s (s.setSession session object value) :=
  ⟨rfl, rfl, rfl, rfl, fun _ => rfl, fun _ => rfl⟩

theorem advances_append (hs : s.Kept) (session : ℕ) (object : SessionObject) (call : AppendCall) :
    Advances s (s.append projections session object call).1 := by
  unfold SessionStore.append
  cases hattached : s.attached session with
  | none =>
    dsimp only
    split
    · exact (still_setSession s session object _).advances hs
    · exact (still_setSession s session object _).advances hs
  | some found =>
    obtain ⟨e, x⟩ := found
    dsimp only
    by_cases happending : x.appending = true
    · rw [if_pos happending]
      exact Advances.refl hs
    · rw [if_neg happending]
      split
      · exact (still_setSession s session object _).advances hs
      · rename_i value _
        have hset := (still_setSession s session object value).advances hs
        refine hset.trans ?_
        obtain ⟨hlookup, hx⟩ := attached_spec hattached
        obtain ⟨y, hy, _, hstore⟩ := hs.sound.indexed.attachments hlookup
        cases hx.symm.trans hy
        exact advances_of_begin hset.kept hx
          (hset.kept.sound.beginEvent hx (held_eq_true.mpr hstore) (by simpa using happending) _)
          (Heap.read_write_self (Heap.lt_of_read hx)) rfl rfl rfl rfl (Bool.or_true _)

variable (projections) in
theorem advances_create (hs : s.Kept) (id : Option String) (options : CreateSessionOptions)
    (now : ℤ) : Advances s (s.create projections id options now).1 := by
  have hprepare := advances_prepare projections hs id (.create options) now
  unfold SessionStore.create
  cases hp : s.prepare projections id (.create options) now with
  | mk s₁ answer =>
    rw [hp] at hprepare
    cases answer with
    | error message => exact hprepare
    | ok prepared =>
      dsimp only
      have henter := advances_enter hprepare.kept prepared.1 prepared.2
      cases he : s₁.enter prepared.1 prepared.2 with
      | mk s₂ entered =>
        rw [he] at henter
        cases entered with
        | error message => exact hprepare.trans henter
        | ok e =>
          exact (hprepare.trans henter).trans
            (advances_announce henter.kept prepared.1 prepared.2 true)

theorem advances_fork (hs : s.Kept) (source : ForkSource) (boundary : Option ℕ)
    (child : Option String) (now : ℤ) {answer : Except String Unit}
    (h : s.fork projections source boundary child now = some (s', answer)) : Advances s s' := by
  unfold SessionStore.fork at h
  split at h
  · cases h
    exact Advances.refl hs
  · rw [Option.map_eq_some_iff] at h
    obtain ⟨resolved, _, h⟩ := h
    split at h
    · cases h
      exact Advances.refl hs
    · rename_i source' _
      split at h
      · cases h
        exact Advances.refl hs
      · rename_i resolved' _
        have hcreate := advances_create projections hs child
          (forkOptions source' resolved') now
        rw [h] at hcreate
        exact hcreate

/-! ## Dispatches -/

theorem advances_publish (hs : s.Kept) (h : s.publish = some s') : Advances s s' := by
  unfold SessionStore.publish at h
  split at h
  · rename_i e event rest hdispatches
    simp only [bind, Option.bind_eq_some_iff] at h
    obtain ⟨x, _, object, _, h⟩ := h
    cases h
    refine Still.advances ⟨rfl, rfl, rfl, rfl, ?_, ?_⟩ hs
    · intro k
      rw [hdispatches]
      simp [Dispatch.isCreated]
    · intro k
      rw [hdispatches]
      simp [List.countP_cons, Dispatch.isEvent]
  · cases h

theorem Moved.trans {s'' : SessionStore} (h : Moved e s s') (h' : Moved e s' s'') :
    Moved e s s'' where
  frame := h.frame.trans h'.frame
  sound := h'.sound
  settled := h'.settled

/-- A move that can take entry `e` out of the store: its own capability, or the end of one of its
dispatches, when the capability was used meanwhile or the effect of `create` rolls back. -/
inductive Releases (s : SessionStore) (e : ℕ) : StoreMove → Prop where
  | detach : Releases s e (.detach e)
  | requested {d : Dispatch} {rest : List Dispatch} {x : SessionEntry} {threw : Bool}
      (hdispatches : s.dispatches = d :: rest) (hd : d.entry = e)
      (hx : s.entries.read e = some x) (hrequested : x.detachRequested = true) :
      Releases s e (.unwind threw)
  | rollback {rest : List Dispatch} (hdispatches : s.dispatches = .created e true :: rest) :
      Releases s e (.unwind true)

/-- The unwinding of a creation keeps its entry if no detach was requested. -/
theorem live_finishCreated {rest : List Dispatch} (hx : s.entries.read e = some x)
    (hrequested : x.detachRequested = false) (hlive : s.Live e) :
    (s.finishCreated e x rest).Live e := by
  obtain ⟨y, hy, hlookup⟩ := hlive
  cases hx.symm.trans hy
  rw [SessionStore.finishCreated, hrequested, Bool.false_and, if_neg Bool.false_ne_true]
  exact ⟨_, Heap.read_write_self (Heap.lt_of_read hx), hlookup⟩

/-- The unwinding of an append keeps its entry if no detach was requested. -/
theorem live_finishEvent {rest : List Dispatch} (hx : s.entries.read e = some x)
    (hrequested : x.detachRequested = false) (hlive : s.Live e) :
    (s.finishEvent e x rest).Live e := by
  obtain ⟨y, hy, hlookup⟩ := hlive
  cases hx.symm.trans hy
  rw [SessionStore.finishEvent, hrequested, Bool.false_and, if_neg Bool.false_ne_true]
  exact ⟨_, Heap.read_write_self (Heap.lt_of_read hx), hlookup⟩

theorem unwind_spec (hs : s.Kept) {threw : Bool} (h : s.unwind threw = some s') :
    s'.Kept ∧ ∀ {k : ℕ}, s.Live k → ¬s'.Live k → Releases s k (.unwind threw) := by
  unfold SessionStore.unwind at h
  split at h
  · cases h
  · rename_i e rollback rest hdispatches
    rw [Option.map_eq_some_iff] at h
    obtain ⟨x, hx, h⟩ := h
    have hfinish := hs.sound.finishCreated hx (hs.settled hx) hdispatches
    have hmoved : Moved e s s' := by
      subst h
      dsimp only
      split
      · exact hfinish.trans (hfinish.sound.detach hfinish.settled)
      · exact hfinish
    refine ⟨hmoved.kept hs, ?_⟩
    intro k hlive hgone
    have hk : k = e := by
      by_contra hne
      exact hgone (hmoved.frame.live hne hlive)
    subst hk
    by_cases hrequested : x.detachRequested = true
    · exact .requested hdispatches rfl hx hrequested
    · by_cases hrollback : (threw && rollback) = true
      · rw [Bool.and_eq_true] at hrollback
        rw [hrollback.2] at hdispatches
        rw [hrollback.1]
        exact .rollback hdispatches
      · refine absurd ?_ hgone
        subst h
        dsimp only
        rw [if_neg hrollback]
        exact live_finishCreated hx (by simpa using hrequested) hlive
  · rename_i e pending rest hdispatches
    rw [Option.map_eq_some_iff] at h
    obtain ⟨x, hx, h⟩ := h
    have hmoved := hs.sound.finishEvent hx (hs.settled hx) hdispatches
    rw [h] at hmoved
    refine ⟨hmoved.kept hs, ?_⟩
    intro k hlive hgone
    have hk : k = e := by
      by_contra hne
      exact hgone (hmoved.frame.live hne hlive)
    subst hk
    by_cases hrequested : x.detachRequested = true
    · exact .requested hdispatches rfl hx hrequested
    · refine absurd ?_ hgone
      rw [← h]
      exact live_finishEvent hx (by simpa using hrequested) hlive
  · rename_i e rest hdispatches
    cases h
    have hstill : Still s { s with dispatches := rest } := by
      refine ⟨rfl, rfl, rfl, rfl, ?_, ?_⟩
      · intro k
        rw [hdispatches]
        exact (List.countP_cons_of_neg (by simp [Dispatch.isCreated])).symm
      · intro k
        rw [hdispatches]
        exact (List.countP_cons_of_neg (by simp [Dispatch.isEvent])).symm
    exact ⟨hstill.kept hs, fun hlive hgone => absurd (hstill.live hlive) hgone⟩

/-! ## Runs -/

/-- One move keeps the invariant, and only a move that may release an entry removes it. -/
theorem step_spec (hs : s.Kept) {move : StoreMove} (h : s.step projections move = some s') :
    s'.Kept ∧ ∀ {k : ℕ}, s.Live k → ¬s'.Live k → Releases s k move := by
  have hadvances : Advances s s' →
      s'.Kept ∧ ∀ {k : ℕ}, s.Live k → ¬s'.Live k → Releases s k move :=
    fun ha => ⟨ha.kept, fun hlive hgone => absurd (ha.live hlive) hgone⟩
  cases move with
  | prepare id options now =>
    cases h
    exact hadvances (advances_prepare projections hs id options now)
  | enter session =>
    obtain ⟨object, _, rfl⟩ := Option.map_eq_some_iff.mp h
    exact hadvances (advances_enter hs session object)
  | announce session =>
    obtain ⟨object, _, rfl⟩ := Option.map_eq_some_iff.mp h
    exact hadvances (advances_announce hs session object false)
  | append session call =>
    obtain ⟨object, _, rfl⟩ := Option.map_eq_some_iff.mp h
    exact hadvances (advances_append hs session object call)
  | detach e =>
    cases h
    have hmoved := hs.sound.detach (e := e) hs.settled
    refine ⟨hmoved.kept hs, ?_⟩
    intro k hlive hgone
    have hk : k = e := by
      by_contra hne
      exact hgone (hmoved.frame.live hne hlive)
    subst hk
    exact .detach
  | create id options now =>
    cases h
    exact hadvances (advances_create projections hs id options now)
  | fork source boundary child now =>
    obtain ⟨answer, hfork, rfl⟩ := Option.map_eq_some_iff.mp h
    exact hadvances (advances_fork hs source boundary child now hfork)
  | publish => exact hadvances (advances_publish hs h)
  | unwind threw => exact unwind_spec hs h

theorem kept_empty : empty.Kept := by
  have hnone : ∀ e, empty.entries.read e = none := fun _ => rfl
  refine ⟨⟨⟨?_, ?_⟩, ?_, fun _ => ⟨rfl, rfl, rfl⟩⟩, ?_⟩
  · intro id e h
    cases h
  · intro session e h
    cases h
  · intro e x h
    cases (hnone e).symm.trans h
  · intro e x h
    cases (hnone e).symm.trans h

/-- What holds at every point of a run. -/
structure LifecycleLaw (s : SessionStore) : Prop where
  /-- The creation dispatch of an entry begins at most once. -/
  created_once : ∀ e, (word e s.trace).count .created ≤ 1
  disposed_once : ∀ e, (word e s.trace).count .disposed ≤ 1
  /-- An entry is disposed of when it has left the store after its announcement began. -/
  disposed_iff : ∀ e, .disposed ∈ word e s.trace ↔ s.Left e ∧ .created ∈ word e s.trace
  /-- At the disposal every dispatch of the entry has unwound, and nothing follows. -/
  disposed_last : ∀ e pre post, word e s.trace = pre ++ .disposed :: post →
    pre.count .created = pre.count .createdUnwound ∧
      pre.count .event = pre.count .eventUnwound ∧ post = []
  /-- The two maps hold the same entries. -/
  indexed : s.Indexed
  /-- A detach that was requested waits for a dispatch of its entry. -/
  waits : ∀ e x, s.entries.read e = some x → x.entered = false → s.Live e →
    ∃ d ∈ s.dispatches, d.entry = e
  /-- A capability whose entry has left the store does nothing. -/
  stale : ∀ e, s.Left e → s.detach e = s

theorem left_iff (hx : s.entries.read e = some x) : s.Left e ↔ s.held e x = false := by
  rw [Left, ← Bool.not_eq_true, held_eq_true]
  constructor
  · rintro ⟨y, hy, hleft⟩
    cases hx.symm.trans hy
    exact hleft
  · intro hleft
    exact ⟨x, hx, hleft⟩

/-- The word of an entry is the lifecycle of its phase, or empty if there is no such entry. -/
theorem Sound.word_cases (h : s.Sound) (e : ℕ) :
    (s.entries.read e = none ∧ word e s.trace = []) ∨
      ∃ x, s.entries.read e = some x ∧ s.Traced e x := by
  cases hx : s.entries.read e with
  | none => exact .inl ⟨rfl, (h.fresh hx).1⟩
  | some x => exact .inr ⟨x, rfl, h.entries hx⟩

theorem Traced.mem_created_iff (h : s.Traced e x) :
    .created ∈ KeyedTrace.word e s.trace ↔ x.announced = true := by
  have hcount := (EntryPhase.counts h.word).created
  rw [← List.one_le_count_iff, hcount]
  cases hannounced : x.announced <;> simp [phase, hannounced]

theorem Traced.mem_disposed_iff (h : s.Traced e x) :
    .disposed ∈ KeyedTrace.word e s.trace ↔ s.held e x = false ∧ x.announced = true := by
  have hcount := (EntryPhase.counts h.word).disposed
  rw [← List.one_le_count_iff, hcount]
  cases hheld : s.held e x <;> cases hannounced : x.announced <;> simp [phase, hheld, hannounced]

/-- A flag that says a dispatch is in progress has one. -/
theorem Traced.exists_dispatch (h : s.Traced e x) (hopen : (x.announcing || x.appending) = true) :
    ∃ d ∈ s.dispatches, d.entry = e := by
  rcases Bool.or_eq_true_iff.mp hopen with hannouncing | happending
  · have hpos : 0 < s.dispatches.countP (Dispatch.isCreated e) := by
      rw [h.created, hannouncing]
      exact Nat.one_pos
    obtain ⟨d, hd, hentry⟩ := List.countP_pos_iff.mp hpos
    refine ⟨d, hd, ?_⟩
    cases d with
    | created k rollback => exact beq_iff_eq.mp hentry
    | event k pending => cases hentry
    | disposed k => cases hentry
  · have hpos : 0 < s.dispatches.countP (Dispatch.isEvent e) := by
      rw [h.event, happending]
      exact Nat.one_pos
    obtain ⟨d, hd, hentry⟩ := List.countP_pos_iff.mp hpos
    refine ⟨d, hd, ?_⟩
    cases d with
    | created k rollback => cases hentry
    | event k pending => exact beq_iff_eq.mp hentry
    | disposed k => cases hentry

theorem Kept.law (h : s.Kept) : s.LifecycleLaw where
  created_once := by
    intro e
    rcases h.sound.word_cases e with ⟨_, hword⟩ | ⟨x, _, ht⟩
    · simp [hword]
    · rw [(EntryPhase.counts ht.word).created]
      exact Bool.toNat_le _
  disposed_once := by
    intro e
    rcases h.sound.word_cases e with ⟨_, hword⟩ | ⟨x, _, ht⟩
    · simp [hword]
    · rw [(EntryPhase.counts ht.word).disposed]
      exact Bool.toNat_le _
  disposed_iff := by
    intro e
    rcases h.sound.word_cases e with ⟨_, hword⟩ | ⟨x, hx, ht⟩
    · simp [hword]
    · rw [ht.mem_disposed_iff, ht.mem_created_iff, left_iff hx]
  disposed_last := by
    intro e pre post hsplit
    rcases h.sound.word_cases e with ⟨_, hword⟩ | ⟨x, _, ht⟩
    · rw [hword] at hsplit
      simp at hsplit
    · have hrun := ht.word
      rw [Follows, hsplit] at hrun
      exact EntryPhase.disposed_last hrun
  indexed := h.sound.indexed
  waits := by
    rintro e x hx hentered ⟨y, hy, hlookup⟩
    cases hx.symm.trans hy
    have hopen := h.settled hx hentered (held_eq_true.mpr hlookup)
    exact (h.sound.entries hx).exists_dispatch hopen.2
  stale := by
    intro e hleft
    have hleft' := hleft
    obtain ⟨x, hx, _⟩ := hleft
    have hheld := (left_iff hx).mp hleft'
    have hentered : x.entered = false := by
      by_contra hne
      have hunused := (h.sound.entries hx).unused (by simpa using hne)
      rw [hheld] at hunused
      cases hunused.1
    simp [SessionStore.detach, hx, hentered]

/-- Every run pairs the lifecycle of its entries. -/
theorem lifecycle_paired (projections : List SessionMessageProjection) {moves : List StoreMove}
    {s : SessionStore} (hrun : Transition.run (step projections) empty moves = some s) :
    s.LifecycleLaw ∧ ∀ move s', s.step projections move = some s' →
      ∀ e, s.Live e → ¬s'.Live e → Releases s e move := by
  have hkept : s.Kept :=
    Transition.run_induction (fun _ _ _ hs hstep => (step_spec hs hstep).1) kept_empty hrun
  exact ⟨hkept.law, fun _ _ hstep _ hlive hgone => (step_spec hkept hstep).2 hlive hgone⟩

/-- A listener of the creation appends an event, whose listener detaches the session. -/
def detachedInside : List StoreMove :=
  [.create (some "a") {} 0, .append 0 { type := .turnStart, data := .obj [], time := 0 }, .publish,
    .detach 0, .unwind false, .unwind false, .unwind false]

/-- The disposal waits for both dispatches. -/
theorem lifecycle_paired_inside : ∃ s,
    Transition.run (step []) empty detachedInside = some s ∧
    word 0 s.trace = [.created, .event, .eventUnwound, .createdUnwound, .removed, .disposed] ∧
    s.LifecycleLaw := by
  have hword : (Transition.run (step []) empty detachedInside).map (fun s => word 0 s.trace)
      = some [.created, .event, .eventUnwound, .createdUnwound, .removed, .disposed] := by
    decide +kernel
  obtain ⟨s, hrun, hword⟩ := Option.map_eq_some_iff.mp hword
  exact ⟨s, hrun, hword, (lifecycle_paired [] hrun).1⟩

end SessionStore

end TianmaCoder
