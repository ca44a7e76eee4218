import TianmaCoder.Session.Store

/-!
# The store keeps its entries' lifecycles

Every entry's part of the trace is a lifecycle, its flags say which of its dispatches are in
progress, and the two maps hold the same entries. A move touches one entry at most, which is
all that has to be looked at.

## Main definitions

* `SessionStore.Indexed` — both maps hold the same entries, under their own keys.
* `SessionStore.Traced`, `SessionStore.Settled`, `SessionStore.Sound` — the invariant.
* `SessionStore.Frame` — a step that touches one entry.
-/

namespace TianmaCoder

namespace SessionStore

open KeyedTrace

/-- Both maps hold the same entries, each under its own id and session. -/
structure Indexed (s : SessionStore) : Prop where
  store : ∀ {id : String} {e : ℕ}, s.store.lookup id = some e →
    ∃ x, s.entries.read e = some x ∧ x.id = id ∧ s.attachments.lookup x.session = some e
  attachments : ∀ {session e : ℕ}, s.attachments.lookup session = some e →
    ∃ x, s.entries.read e = some x ∧ x.session = session ∧ s.store.lookup x.id = some e

/-- Whether the store holds entry `e`. -/
def held (s : SessionStore) (e : ℕ) (x : SessionEntry) : Bool := s.store.lookup x.id == some e

/-- The phase an entry has reached; a removed entry was disposed of if it was announced. -/
def phase (s : SessionStore) (e : ℕ) (x : SessionEntry) : EntryPhase where
  announced := x.announced
  announcing := x.announcing
  appending := x.appending
  live := s.held e x
  disposed := !s.held e x && x.announced

/-- The trace, the dispatches in progress and the maps agree with the flags of one entry. -/
structure Traced (s : SessionStore) (e : ℕ) (x : SessionEntry) : Prop where
  word : Follows EntryPhase.step EntryPhase.entered s.trace e (s.phase e x)
  created : s.dispatches.countP (Dispatch.isCreated e) = x.announcing.toNat
  event : s.dispatches.countP (Dispatch.isEvent e) = x.appending.toNat
  unused : x.entered = true → s.held e x = true ∧ x.detachRequested = false
  requested : x.detachRequested = true → s.held e x = true

/-- A used capability leaves its entry in the store only while a dispatch of it is open. -/
def Settled (s : SessionStore) (e : ℕ) (x : SessionEntry) : Prop :=
  x.entered = false → s.held e x = true →
    x.detachRequested = true ∧ (x.announcing || x.appending) = true

/-- The invariant of a store, but for a detach that is due. -/
structure Sound (s : SessionStore) : Prop where
  indexed : s.Indexed
  entries : ∀ {e : ℕ} {x : SessionEntry}, s.entries.read e = some x → s.Traced e x
  fresh : ∀ {e : ℕ}, s.entries.read e = none → word e s.trace = [] ∧
    s.dispatches.countP (Dispatch.isCreated e) = 0 ∧
    s.dispatches.countP (Dispatch.isEvent e) = 0

/-- A step from `s` to `s'` that touches entry `e` alone. -/
structure Frame (e : ℕ) (s s' : SessionStore) : Prop where
  entries : ∀ {k : ℕ}, k ≠ e → s'.entries.read k = s.entries.read k
  word : ∀ {k : ℕ}, k ≠ e → word k s'.trace = word k s.trace
  created : ∀ {k : ℕ}, k ≠ e →
    s'.dispatches.countP (Dispatch.isCreated k) = s.dispatches.countP (Dispatch.isCreated k)
  event : ∀ {k : ℕ}, k ≠ e →
    s'.dispatches.countP (Dispatch.isEvent k) = s.dispatches.countP (Dispatch.isEvent k)
  held : ∀ {k : ℕ} {x : SessionEntry}, k ≠ e → s.entries.read k = some x →
    s'.held k x = s.held k x

namespace Frame

variable {s s' s'' : SessionStore} {e k : ℕ} {x : SessionEntry}

theorem refl (e : ℕ) (s : SessionStore) : Frame e s s :=
  ⟨fun _ => rfl, fun _ => rfl, fun _ => rfl, fun _ => rfl, fun _ _ => rfl⟩

theorem trans (h : Frame e s s') (h' : Frame e s' s'') : Frame e s s'' where
  entries hk := (h'.entries hk).trans (h.entries hk)
  word hk := (h'.word hk).trans (h.word hk)
  created hk := (h'.created hk).trans (h.created hk)
  event hk := (h'.event hk).trans (h.event hk)
  held hk hx := (h'.held hk ((h.entries hk).trans hx)).trans (h.held hk hx)

/-- An entry that is not touched keeps its phase. -/
theorem phase (h : Frame e s s') (hk : k ≠ e) (hx : s.entries.read k = some x) :
    s'.phase k x = s.phase k x := by
  simp only [SessionStore.phase, h.held hk hx]

theorem traced (h : Frame e s s') (hk : k ≠ e) (hx : s.entries.read k = some x)
    (ht : s.Traced k x) : s'.Traced k x where
  word := by
    rw [Follows, h.word hk, h.phase hk hx]
    exact ht.word
  created := (h.created hk).trans ht.created
  event := (h.event hk).trans ht.event
  unused hentered := by
    rw [h.held hk hx]
    exact ht.unused hentered
  requested hrequested := by
    rw [h.held hk hx]
    exact ht.requested hrequested

theorem settled (h : Frame e s s') (hk : k ≠ e) (hx : s.entries.read k = some x)
    (hs : s.Settled k x) : s'.Settled k x := by
  rw [Settled, h.held hk hx]
  exact hs

end Frame

variable {s s' : SessionStore} {e : ℕ} {x x' : SessionEntry}

@[simp] theorem held_eq_true : s.held e x = true ↔ s.store.lookup x.id = some e := by
  simp [held]

/-- What a step that touches one entry establishes of the whole store. -/
theorem Sound.of_frame (h : s.Sound) (hframe : Frame e s s') (hindexed : s'.Indexed)
    (hx : s'.entries.read e = some x') (ht : s'.Traced e x') : s'.Sound where
  indexed := hindexed
  entries := by
    intro k y hy
    by_cases hk : k = e
    · subst hk
      rw [hx] at hy
      cases hy
      exact ht
    · rw [hframe.entries hk] at hy
      exact hframe.traced hk hy (h.entries hy)
  fresh := by
    intro k hnone
    by_cases hk : k = e
    · subst hk
      rw [hx] at hnone
      cases hnone
    · rw [hframe.entries hk] at hnone
      rw [hframe.word hk, hframe.created hk, hframe.event hk]
      exact h.fresh hnone

/-- Writing the flags of an entry leaves the maps as they were. -/
theorem Indexed.write (h : s.Indexed) (hx : s.entries.read e = some x) (hid : x'.id = x.id)
    (hsession : x'.session = x.session) (hentries : s'.entries = s.entries.write e x')
    (hstore : s'.store = s.store) (hattachments : s'.attachments = s.attachments) :
    s'.Indexed where
  store := by
    intro id k hk
    rw [hstore] at hk
    obtain ⟨y, hy, hyid, hyatt⟩ := h.store hk
    rw [hentries, hattachments]
    by_cases hke : k = e
    · subst hke
      rw [hx] at hy
      cases hy
      exact ⟨x', Heap.read_write_self (Heap.lt_of_read hx), hid.trans hyid, by rw [hsession, hyatt]⟩
    · exact ⟨y, (Heap.read_write_of_ne hke).trans hy, hyid, hyatt⟩
  attachments := by
    intro session k hk
    rw [hattachments] at hk
    obtain ⟨y, hy, hysession, hystore⟩ := h.attachments hk
    rw [hentries, hstore]
    by_cases hke : k = e
    · subst hke
      rw [hx] at hy
      cases hy
      exact ⟨x', Heap.read_write_self (Heap.lt_of_read hx), hsession.trans hysession,
        by rw [hid, hystore]⟩
    · exact ⟨y, (Heap.read_write_of_ne hke).trans hy, hysession, hystore⟩

/-- A step that writes the flags of one entry and speaks of that entry alone. -/
theorem Sound.write (h : s.Sound) (hx : s.entries.read e = some x)
    (hentries : s'.entries = s.entries.write e x') (hid : x'.id = x.id)
    (hsession : x'.session = x.session) (hstore : s'.store = s.store) (hattachments : s'.attachments = s.attachments)
    (hword : ∀ k, k ≠ e → word k s'.trace = word k s.trace)
    (hdispatches : ∀ k, k ≠ e →
      s'.dispatches.countP (Dispatch.isCreated k) = s.dispatches.countP (Dispatch.isCreated k) ∧
      s'.dispatches.countP (Dispatch.isEvent k) = s.dispatches.countP (Dispatch.isEvent k))
    (ht : s'.Traced e x') : Frame e s s' ∧ s'.Sound := by
  have hframe : Frame e s s' := by
    constructor
    · intro k hk
      rw [hentries]
      exact Heap.read_write_of_ne hk
    · exact hword _
    · intro k hk
      exact (hdispatches k hk).1
    · intro k hk
      exact (hdispatches k hk).2
    · intro k y hk hy
      rw [held, held, hstore]
  have hx' : s'.entries.read e = some x' := by
    rw [hentries]
    exact Heap.read_write_self (Heap.lt_of_read hx)
  exact ⟨hframe, h.of_frame hframe (h.indexed.write hx hid hsession hentries hstore hattachments)
    hx' ht⟩

/-- The law of an entry whose flags were written while the maps stayed. -/
theorem Traced.of_flags (s : SessionStore) (x : SessionEntry) (hstore : s'.store = s.store)
    (hid : x'.id = x.id) (hword : Follows EntryPhase.step EntryPhase.entered s'.trace e
      ⟨x'.announced, x'.announcing, x'.appending, s.held e x, !s.held e x && x'.announced⟩)
    (hcreated : s'.dispatches.countP (Dispatch.isCreated e) = x'.announcing.toNat)
    (hevent : s'.dispatches.countP (Dispatch.isEvent e) = x'.appending.toNat)
    (hunused : x'.entered = true → s.held e x = true ∧ x'.detachRequested = false)
    (hrequested : x'.detachRequested = true → s.held e x = true) : s'.Traced e x' := by
  have hheld : s'.held e x' = s.held e x := by rw [held, held, hstore, hid]
  constructor
  · rw [phase, hheld]
    exact hword
  · exact hcreated
  · exact hevent
  · rw [hheld]
    exact hunused
  · rw [hheld]
    exact hrequested

theorem Traced.used (h : s.Traced e x) (hrequested : x.detachRequested = true) :
    x.entered = false := by
  by_contra hne
  have hunused := h.unused (by simpa using hne)
  rw [hrequested] at hunused
  cases hunused.2

/-! ## Dispatches begin and unwind -/

theorem countP_isCreated_of_ne {d : Dispatch} {k : ℕ} (h : d.entry ≠ k) (ds : List Dispatch) :
    (d :: ds).countP (Dispatch.isCreated k) = ds.countP (Dispatch.isCreated k) := by
  refine List.countP_cons_of_neg ?_
  cases d with
  | created e rollback => simpa [Dispatch.isCreated, Dispatch.entry] using h
  | event e pending => simp [Dispatch.isCreated]
  | disposed e => simp [Dispatch.isCreated]

theorem countP_isEvent_of_ne {d : Dispatch} {k : ℕ} (h : d.entry ≠ k) (ds : List Dispatch) :
    (d :: ds).countP (Dispatch.isEvent k) = ds.countP (Dispatch.isEvent k) := by
  refine List.countP_cons_of_neg ?_
  cases d with
  | created e rollback => simp [Dispatch.isEvent]
  | event e pending => simpa [Dispatch.isEvent, Dispatch.entry] using h
  | disposed e => simp [Dispatch.isEvent]

theorem Sound.dispatch (h : s.Sound) (hx : s.entries.read e = some x)
    (hentries : s'.entries = s.entries.write e x') (hid : x'.id = x.id)
    (hsession : x'.session = x.session) (hstore : s'.store = s.store)
    (hattachments : s'.attachments = s.attachments) {edge : LifecycleEdge}
    (htrace : s'.trace = s.trace ++ [(e, edge)]) {d : Dispatch} (hd : d.entry = e)
    (hdispatches : s'.dispatches = d :: s.dispatches ∨ s.dispatches = d :: s'.dispatches)
    (ht : s'.Traced e x') : Frame e s s' ∧ s'.Sound := by
  refine h.write hx hentries hid hsession hstore hattachments ?_ ?_ ht
  · intro k hk
    rw [htrace]
    exact word_snoc_of_ne hk.symm
  · intro k hk
    have hne : d.entry ≠ k := hd ▸ hk.symm
    rcases hdispatches with hcons | hcons
    · rw [hcons, countP_isCreated_of_ne hne, countP_isEvent_of_ne hne]
      exact ⟨rfl, rfl⟩
    · rw [hcons, countP_isCreated_of_ne hne, countP_isEvent_of_ne hne]
      exact ⟨rfl, rfl⟩

theorem Sound.beginCreated (h : s.Sound) (hx : s.entries.read e = some x)
    (hlive : s.held e x = true) (hannounced : x.announced = false)
    (hannouncing : x.announcing = false) (rollback : Bool) :
    Frame e s (s.beginCreated e x rollback) ∧ (s.beginCreated e x rollback).Sound := by
  have ht := h.entries hx
  refine h.dispatch hx rfl rfl rfl rfl rfl rfl rfl (.inl rfl) ?_
  have hcreated := ht.created
  rw [hannouncing] at hcreated
  refine Traced.of_flags s x rfl rfl (ht.word.snoc ?_) ?_ ?_ ht.unused ht.requested
  · simp [EntryPhase.step, SessionStore.phase, hlive, hannounced]
  · simp [SessionStore.beginCreated, beginDispatch, record, setEntry, Dispatch.isCreated, hcreated]
  · simp [SessionStore.beginCreated, beginDispatch, record, setEntry, Dispatch.isEvent, ht.event]

theorem Sound.beginEvent (h : s.Sound) (hx : s.entries.read e = some x)
    (hlive : s.held e x = true) (happending : x.appending = false) (event : Ref) :
    Frame e s (s.beginEvent e x event) ∧ (s.beginEvent e x event).Sound := by
  have ht := h.entries hx
  refine h.dispatch hx rfl rfl rfl rfl rfl rfl rfl (.inl rfl) ?_
  have hevent := ht.event
  rw [happending] at hevent
  refine Traced.of_flags s x rfl rfl (ht.word.snoc ?_) ?_ ?_ ht.unused ht.requested
  · simp [EntryPhase.step, SessionStore.phase, hlive, happending]
  · simp [SessionStore.beginEvent, beginDispatch, record, setEntry, Dispatch.isCreated, ht.created]
  · simp [SessionStore.beginEvent, beginDispatch, record, setEntry, Dispatch.isEvent, hevent]

theorem Sound.endCreated (h : s.Sound) (hx : s.entries.read e = some x) {rollback : Bool}
    {rest : List Dispatch} (hdispatches : s.dispatches = .created e rollback :: rest) :
    Frame e s (s.endCreated e x rest) ∧ (s.endCreated e x rest).Sound := by
  have ht := h.entries hx
  refine h.dispatch hx rfl rfl rfl rfl rfl rfl rfl (.inr hdispatches) ?_
  have hcreated := ht.created
  have hevent := ht.event
  rw [hdispatches, List.countP_cons_of_pos (by simp [Dispatch.isCreated])] at hcreated
  rw [hdispatches, List.countP_cons_of_neg (by simp [Dispatch.isEvent])] at hevent
  have hannouncing : x.announcing = true := by
    cases hval : x.announcing with
    | true => rfl
    | false =>
      rw [hval, Bool.toNat_false] at hcreated
      omega
  rw [hannouncing, Bool.toNat_true] at hcreated
  refine Traced.of_flags s x rfl rfl (ht.word.snoc ?_) ?_ hevent ht.unused ht.requested
  · simp [EntryPhase.step, SessionStore.phase, hannouncing]
  · exact Nat.succ_injective hcreated

/-- The innermost dispatch, an append, unwinds. -/
theorem Sound.endEvent (h : s.Sound) (hx : s.entries.read e = some x) {pending : Option Ref}
    {rest : List Dispatch} (hdispatches : s.dispatches = .event e pending :: rest) :
    Frame e s (s.endEvent e x rest) ∧ (s.endEvent e x rest).Sound := by
  have ht := h.entries hx
  refine h.dispatch hx rfl rfl rfl rfl rfl rfl rfl (.inr hdispatches) ?_
  have hcreated := ht.created
  have hevent := ht.event
  rw [hdispatches, List.countP_cons_of_neg (by simp [Dispatch.isCreated])] at hcreated
  rw [hdispatches, List.countP_cons_of_pos (by simp [Dispatch.isEvent])] at hevent
  have happending : x.appending = true := by
    cases hval : x.appending with
    | true => rfl
    | false =>
      rw [hval, Bool.toNat_false] at hevent
      omega
  rw [happending, Bool.toNat_true] at hevent
  refine Traced.of_flags s x rfl rfl (ht.word.snoc ?_) hcreated ?_ ht.unused ht.requested
  · simp [EntryPhase.step, SessionStore.phase, happending]
  · exact Nat.succ_injective hevent

/-! ## Entries leave the store -/

/-- The maps after an entry that the store holds is forgotten. -/
theorem Indexed.remove (h : s.Indexed) (hx : s.entries.read e = some x) (hlive : s.held e x = true)
    (hentries : s'.entries = s.entries.write e x')
    (hstore : s'.store = OrderedMap.delete x.id s.store)
    (hattachments : s'.attachments = OrderedMap.delete x.session s.attachments) : s'.Indexed := by
  have hlookup : s.store.lookup x.id = some e := held_eq_true.mp hlive
  obtain ⟨x₀, hx₀, _, hattached⟩ := h.store hlookup
  rw [hx] at hx₀
  cases hx₀
  constructor
  · intro id k hk
    rw [hstore, OrderedMap.lookup_delete] at hk
    by_cases hidx : id = x.id
    · rw [if_pos hidx] at hk
      cases hk
    · rw [if_neg hidx] at hk
      obtain ⟨y, hy, hyid, hyatt⟩ := h.store hk
      have hke : k ≠ e := by
        rintro rfl
        rw [hx] at hy
        cases hy
        exact hidx hyid.symm
      have hys : y.session ≠ x.session := by
        intro heq
        rw [heq, hattached] at hyatt
        exact hke (Option.some.inj hyatt).symm
      refine ⟨y, ?_, hyid, ?_⟩
      · rw [hentries]
        exact (Heap.read_write_of_ne hke).trans hy
      · rw [hattachments, OrderedMap.lookup_delete, if_neg hys, hyatt]
  · intro session k hk
    rw [hattachments, OrderedMap.lookup_delete] at hk
    by_cases hsx : session = x.session
    · rw [if_pos hsx] at hk
      cases hk
    · rw [if_neg hsx] at hk
      obtain ⟨y, hy, hysession, hystore⟩ := h.attachments hk
      have hke : k ≠ e := by
        rintro rfl
        rw [hx] at hy
        cases hy
        exact hsx hysession.symm
      have hyi : y.id ≠ x.id := by
        intro heq
        rw [heq, hlookup] at hystore
        exact hke (Option.some.inj hystore).symm
      refine ⟨y, ?_, hysession, ?_⟩
      · rw [hentries]
        exact (Heap.read_write_of_ne hke).trans hy
      · rw [hstore, OrderedMap.lookup_delete, if_neg hyi, hystore]

/-- What the removal of an entry lets be seen. -/
def removalEdges (x : SessionEntry) : List LifecycleEdge :=
  .removed :: if x.announced then [.disposed] else []

/-- What the removal of an entry leaves, whether or not it is disposed of. -/
theorem Sound.removed (h : s.Sound) (hx : s.entries.read e = some x)
    (hlive : s.held e x = true) (hentered : x.entered = false)
    (hannouncing : x.announcing = false) (happending : x.appending = false)
    (hentries : s'.entries = s.entries.write e { x with detachRequested := false })
    (hstore : s'.store = OrderedMap.delete x.id s.store)
    (hattachments : s'.attachments = OrderedMap.delete x.session s.attachments)
    (htrace : s'.trace = s.trace ++ (removalEdges x).map fun edge => (e, edge))
    (hdispatches : s'.dispatches = s.dispatches ∨ s'.dispatches = .disposed e :: s.dispatches) :
    Frame e s s' ∧ s'.Sound ∧ s'.Settled e { x with detachRequested := false } := by
  have ht := h.entries hx
  have hcount : ∀ k, s'.dispatches.countP (Dispatch.isCreated k)
        = s.dispatches.countP (Dispatch.isCreated k) ∧
      s'.dispatches.countP (Dispatch.isEvent k) = s.dispatches.countP (Dispatch.isEvent k) := by
    intro k
    rcases hdispatches with hds | hds
    · rw [hds]
      exact ⟨rfl, rfl⟩
    · rw [hds]
      constructor
      · exact List.countP_cons_of_neg (by simp [Dispatch.isCreated])
      · exact List.countP_cons_of_neg (by simp [Dispatch.isEvent])
  have hgone : s'.held e { x with detachRequested := false } = false := by
    simp [held, hstore, OrderedMap.lookup_delete]
  have hframe : Frame e s s' := by
    constructor
    · intro k hk
      rw [hentries]
      exact Heap.read_write_of_ne hk
    · intro k hk
      rw [htrace, word_append, word_map_of_ne hk.symm, List.append_nil]
    · intro k _
      exact (hcount k).1
    · intro k _
      exact (hcount k).2
    · intro k y hk hy
      rw [held, held, hstore, OrderedMap.lookup_delete]
      by_cases hid : y.id = x.id
      · rw [if_pos hid, hid, held_eq_true.mp hlive]
        simp [hk.symm]
      · rw [if_neg hid]
  have hread : s'.entries.read e = some { x with detachRequested := false } := by
    rw [hentries]
    exact Heap.read_write_self (Heap.lt_of_read hx)
  refine ⟨hframe, ?_, ?_⟩
  · refine h.of_frame hframe (h.indexed.remove hx hlive hentries hstore hattachments) hread ?_
    constructor
    · rw [htrace]
      refine ht.word.append ?_
      simp only [removalEdges, phase, hgone]
      cases x.announced <;>
        simp [Transition.run, EntryPhase.step, hlive, hannouncing, happending]
    · exact (hcount e).1.trans ht.created
    · exact (hcount e).2.trans ht.event
    · intro hunused
      rw [hentered] at hunused
      cases hunused
    · intro hrequested
      cases hrequested
  · intro _ hheld
    rw [hgone] at hheld
    cases hheld

/-- A step that touches entry `e` alone and leaves no detach of it due. -/
structure Moved (e : ℕ) (s s' : SessionStore) : Prop where
  frame : Frame e s s'
  sound : s'.Sound
  settled : ∀ {x : SessionEntry}, s'.entries.read e = some x → s'.Settled e x

/-- A detach that is due removes its entry. -/
theorem Sound.detachEntered (h : s.Sound) (hx : s.entries.read e = some x)
    (hlive : s.held e x = true) (hentered : x.entered = false) (hannouncing : x.announcing = false)
    (happending : x.appending = false) : Moved e s (s.detachEntered e x) := by
  have hlookup : ¬s.store.lookup x.id ≠ some e := not_not.mpr (held_eq_true.mp hlive)
  have hdetach : s.detachEntered e x
      = if x.announced then
          ((s.setEntry e { x with detachRequested := false }).remove e x).emitDisposed e
        else (s.setEntry e { x with detachRequested := false }).remove e x := if_neg hlookup
  have hread : (s.detachEntered e x).entries.read e
      = some { x with detachRequested := false } := by
    rw [hdetach]
    split <;> exact Heap.read_write_self (Heap.lt_of_read hx)
  have hremoved : Frame e s (s.detachEntered e x) ∧ (s.detachEntered e x).Sound ∧
      (s.detachEntered e x).Settled e { x with detachRequested := false } := by
    rw [hdetach]
    by_cases hannounced : x.announced = true
    · rw [if_pos hannounced]
      refine h.removed hx hlive hentered hannouncing happending rfl rfl rfl ?_ (.inr rfl)
      rw [removalEdges, if_pos hannounced]
      exact List.append_assoc _ _ _
    · rw [if_neg hannounced]
      refine h.removed hx hlive hentered hannouncing happending rfl rfl rfl ?_ (.inl rfl)
      rw [removalEdges, if_neg hannounced]
      rfl
  refine ⟨hremoved.1, hremoved.2.1, ?_⟩
  intro y hy
  rw [hread] at hy
  cases hy
  exact hremoved.2.2

/-- The flags of a capability are written. -/
theorem Sound.setCapability (h : s.Sound) (hx : s.entries.read e = some x)
    (hlive : s.held e x = true) (requested : Bool) :
    Frame e s (s.setEntry e { x with entered := false, detachRequested := requested }) ∧
      (s.setEntry e { x with entered := false, detachRequested := requested }).Sound := by
  have ht := h.entries hx
  refine h.write hx rfl rfl rfl rfl rfl (fun _ _ => rfl) (fun _ _ => ⟨rfl, rfl⟩) ?_
  refine Traced.of_flags s x rfl rfl ht.word ht.created ht.event ?_ (fun _ => hlive)
  intro hentered
  cases hentered

/-- The detach capability touches its own entry alone. -/
theorem Sound.detach (h : s.Sound)
    (hsettled : ∀ {x : SessionEntry}, s.entries.read e = some x → s.Settled e x) :
    Moved e s (s.detach e) := by
  have hstay : Moved e s s := ⟨Frame.refl e s, h, hsettled⟩
  cases hx : s.entries.read e with
  | none =>
    simp only [SessionStore.detach, hx]
    exact hstay
  | some x =>
    simp only [SessionStore.detach, hx]
    by_cases hentered : x.entered = true
    · obtain ⟨hlive, hrequested⟩ := (h.entries hx).unused hentered
      rw [if_neg (by simp [hentered])]
      by_cases hopen : (x.announcing || x.appending) = true
      · rw [if_pos hopen]
        obtain ⟨hframe, hsound⟩ := h.setCapability hx hlive true
        refine ⟨hframe, hsound, ?_⟩
        intro y hy
        rw [SessionStore.setEntry, Heap.read_write_self (Heap.lt_of_read hx)] at hy
        cases hy
        exact fun _ _ => ⟨rfl, hopen⟩
      · rw [if_neg hopen]
        rw [Bool.or_eq_true, not_or, Bool.not_eq_true, Bool.not_eq_true] at hopen
        obtain ⟨hframe, hsound⟩ := h.setCapability hx hlive x.detachRequested
        have hmoved := hsound.detachEntered (Heap.read_write_self (Heap.lt_of_read hx)) hlive
          rfl hopen.1 hopen.2
        exact ⟨hframe.trans hmoved.frame, hmoved.sound, hmoved.settled⟩
    · rw [if_pos (by simpa using hentered)]
      exact hstay

/-! ## Dispatches finish -/

/-- The creation dispatch of `e` unwinds, and a detach that waited for it goes ahead. -/
theorem Sound.finishCreated (h : s.Sound) (hx : s.entries.read e = some x)
    (hsettled : s.Settled e x) {rollback : Bool} {rest : List Dispatch}
    (hdispatches : s.dispatches = .created e rollback :: rest) :
    Moved e s (s.finishCreated e x rest) := by
  have ht := h.entries hx
  obtain ⟨hframe, hsound⟩ := h.endCreated hx hdispatches
  have hread : (s.endCreated e x rest).entries.read e = some { x with announcing := false } :=
    Heap.read_write_self (Heap.lt_of_read hx)
  rw [SessionStore.finishCreated]
  by_cases hdue : (x.detachRequested && !x.appending) = true
  · rw [if_pos hdue]
    rw [Bool.and_eq_true, Bool.not_eq_true'] at hdue
    have hmoved := hsound.detachEntered hread (ht.requested hdue.1) (ht.used hdue.1) rfl hdue.2
    exact ⟨hframe.trans hmoved.frame, hmoved.sound, hmoved.settled⟩
  · rw [if_neg hdue]
    refine ⟨hframe, hsound, ?_⟩
    intro y hy hentered hlive
    rw [hread] at hy
    cases hy
    have hopen := hsettled hentered hlive
    simp only [hopen.1, Bool.true_and, Bool.not_eq_true', Bool.not_eq_false] at hdue
    exact ⟨hopen.1, by simp [hdue]⟩

/-- An append dispatch of `e` unwinds, and a detach that waited for it goes ahead. -/
theorem Sound.finishEvent (h : s.Sound) (hx : s.entries.read e = some x)
    (hsettled : s.Settled e x) {pending : Option Ref} {rest : List Dispatch}
    (hdispatches : s.dispatches = .event e pending :: rest) :
    Moved e s (s.finishEvent e x rest) := by
  have ht := h.entries hx
  obtain ⟨hframe, hsound⟩ := h.endEvent hx hdispatches
  have hread : (s.endEvent e x rest).entries.read e = some { x with appending := false } :=
    Heap.read_write_self (Heap.lt_of_read hx)
  rw [SessionStore.finishEvent]
  by_cases hdue : (x.detachRequested && !x.announcing) = true
  · rw [if_pos hdue]
    rw [Bool.and_eq_true, Bool.not_eq_true'] at hdue
    have hmoved := hsound.detachEntered hread (ht.requested hdue.1) (ht.used hdue.1) hdue.2 rfl
    exact ⟨hframe.trans hmoved.frame, hmoved.sound, hmoved.settled⟩
  · rw [if_neg hdue]
    refine ⟨hframe, hsound, ?_⟩
    intro y hy hentered hlive
    rw [hread] at hy
    cases hy
    have hopen := hsettled hentered hlive
    simp only [hopen.1, Bool.true_and, Bool.not_eq_true', Bool.not_eq_false] at hdue
    exact ⟨hopen.1, by simp [hdue]⟩

end SessionStore

end TianmaCoder
