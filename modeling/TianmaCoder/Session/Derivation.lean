import TianmaCoder.Session.Live

/-!
# The derived-message cache

A live session is `Valid` when its manager tracks the log, the log replays, and the cache
holds the derivation of some prefix of the log. The cache stays usable because the surface
changes an old position only together with the content generation: between two replays of
equal generation the nodes grow at the tail and the projected messages stand
(`content_stable`).

## Main results

* `Session.Valid.append`, `Session.Valid.deriveMessages` — every operation keeps the invariant.
* `Session.deriveMessages_eq` — the cached derivation is the uncached one.
* `Session.create_ok_iff` — which seeds a constructor accepts.
-/

namespace TianmaCoder

open Checked

variable {projections : List SessionMessageProjection}

/-! ## Stability between equal generations -/

/-- The content of `st` survives in `st'` unless the content generation moved. -/
structure ContentStable (st st' : SurfaceFoldState) : Prop where
  generation_le : st.contentGeneration ≤ st'.contentGeneration
  nodes_grow : st'.contentGeneration = st.contentGeneration → st.nodes <+: st'.nodes
  messages_eq : st'.contentGeneration = st.contentGeneration →
    st'.projectedMessages = st.projectedMessages

theorem ContentStable.refl (st : SurfaceFoldState) : ContentStable st st where
  generation_le := Nat.le_refl _
  nodes_grow := fun _ => List.prefix_refl _
  messages_eq := fun _ => rfl

theorem ContentStable.trans {st₁ st₂ st₃ : SurfaceFoldState} (h : ContentStable st₁ st₂)
    (h' : ContentStable st₂ st₃) : ContentStable st₁ st₃ where
  generation_le := Nat.le_trans h.generation_le h'.generation_le
  nodes_grow := by
    intro heq
    have hle := h.generation_le
    have hle' := h'.generation_le
    exact (h.nodes_grow (by omega)).trans (h'.nodes_grow (by omega))
  messages_eq := by
    intro heq
    have hle := h.generation_le
    have hle' := h'.generation_le
    rw [h'.messages_eq (by omega), h.messages_eq (by omega)]

/-- One committed plan either moves the generation or grows the nodes at the tail. -/
theorem contentStable_apply (st : SurfaceFoldState) (plan : Option SurfacePlan) :
    ContentStable st (applySurfacePlan st plan).1 := by
  match plan with
  | none => exact ContentStable.refl st
  | some (.append seq) =>
    exact ⟨Nat.le_refl _, fun _ => List.prefix_append _ _, fun _ => rfl⟩
  | some (.replace replacement startIdx endIdx) =>
    refine ⟨Nat.le_succ _, fun h => ?_, fun h => ?_⟩ <;> simp [applySurfacePlan] at h
  | some (.project projection messages) =>
    refine ⟨Nat.le_succ _, fun h => ?_, fun h => ?_⟩ <;> simp [applySurfacePlan] at h

variable {acc : SurfaceFoldState × List SurfaceFoldReplacement}

theorem content_stable {events more : List SessionEvent}
    {acc' : SurfaceFoldState × List SurfaceFoldReplacement}
    (h : foldSurfaceState events projections = .ok acc)
    (h' : foldSurfaceState (events ++ more) projections = .ok acc') :
    ContentStable acc.1 acc'.1 := by
  induction more using List.reverseRecOn generalizing acc' with
  | nil =>
    rw [List.append_nil, h] at h'
    cases h'
    exact ContentStable.refl acc.1
  | append_singleton more event ih =>
    rw [← List.append_assoc] at h'
    obtain ⟨acc₁, plan, hacc₁, -, rfl⟩ := foldSurfaceState_snoc_ok_iff.mp h'
    exact (ih hacc₁).trans (contentStable_apply acc₁.1 plan)

/-! ## Managers under a growing heap -/

namespace SurfaceManager

variable {m : SurfaceManager} {heap : Ref → SessionEvent} {log : List Ref}

theorem Tracks.congr_heap {heap' : Ref → SessionEvent} (h : Tracks heap projections log m)
    (hlog : ∀ r ∈ log, heap' r = heap r)
    (hpending : ∀ pending, m.pendingPlan = some pending →
      heap' pending.event = heap pending.event) :
    Tracks heap' projections log m := by
  have htake : ∀ n, (log.take n).map heap' = (log.take n).map heap := fun n =>
    List.map_congr_left fun r hr => hlog r (List.mem_of_mem_take hr)
  refine ⟨h.cursor_le, ?_, ?_⟩
  · rw [htake]
    exact h.state_eq
  · intro pending hp
    rw [htake, hpending pending hp]
    exact h.pending_sound pending hp

variable {pending : PendingPlan}

theorem pendingPlan_refresh (h : (m.refresh heap projections log).1.pendingPlan = some pending) :
    m.pendingPlan = some pending := by
  have hdelta : ∀ (rest : List Ref) (m : SurfaceManager),
      (m.processDelta heap projections log rest).1.pendingPlan = some pending →
        m.pendingPlan = some pending := by
    intro rest
    induction rest with
    | nil => exact fun m h => h
    | cons event rest ih =>
      intro m h
      rw [processDelta] at h
      cases hadvance : m.advance heap projections log event with
      | error message =>
        rw [hadvance] at h
        exact h
      | ok state =>
        rw [hadvance] at h
        exact (Option.filter_eq_some_iff.mp (ih _ h)).1
  unfold refresh at h
  cases hassert : m.assertProjections projections log with
  | error message =>
    rw [hassert] at h
    exact h
  | ok _ =>
    rw [hassert] at h
    exact hdelta _ m h

theorem pendingPlan_read {α : Type} {value : SurfaceFoldState → α}
    (h : (m.read heap projections value log).1.pendingPlan = some pending) :
    m.pendingPlan = some pending := by
  have hrefresh : (m.refresh heap projections log).1.pendingPlan = some pending →
      m.pendingPlan = some pending := pendingPlan_refresh
  unfold read at h
  generalize m.refresh heap projections log = result at h hrefresh
  obtain ⟨m', answer⟩ := result
  cases answer <;> exact hrefresh h

theorem pendingPlan_validateNext {event : Ref}
    (h : (m.validateNext heap projections log event).1.pendingPlan = some pending) :
    m.pendingPlan = some pending ∨ pending.event = event := by
  unfold validateNext at h
  have hrefresh : (m.refresh heap projections log).1.pendingPlan = some pending →
      m.pendingPlan = some pending := pendingPlan_refresh
  generalize m.refresh heap projections log = result at h hrefresh
  obtain ⟨m', answer⟩ := result
  cases answer with
  | error message => exact .inl (hrefresh h)
  | ok _ =>
    cases hplan : planSurfaceEvent m'.state (heap event) log.length (log.map heap) 0
        projections with
    | error message =>
      simp only [hplan] at h
      exact .inl (hrefresh h)
    | ok plan =>
      simp only [hplan, Option.some.injEq] at h
      exact .inr (by rw [← h])

end SurfaceManager

/-! ## Valid sessions -/

namespace Session

/-- The cache holds the derivation of a prefix of the log. -/
def CacheSound (projections : List SessionMessageProjection) (s : Session) : Prop :=
  ∃ n acc, foldSurfaceState (s.events.take n) projections = .ok acc
    ∧ s.derivedGeneration = acc.1.contentGeneration
    ∧ s.derivedNodes = acc.1.nodes.length
    ∧ s.derived = surfaceMessages s.events acc.1.projectedMessages acc.1.nodes

/-- A session whose manager tracks its log, whose log replays and whose cache is sound. -/
structure Valid (projections : List SessionMessageProjection) (s : Session) : Prop where
  refs_lt : ∀ r ∈ s.log, r < s.objects.length
  pending_lt : ∀ pending, s.surfaceManager.pendingPlan = some pending →
    pending.event < s.objects.length
  tracks : SurfaceManager.Tracks s.heap projections s.log s.surfaceManager
  replays : ∃ acc, foldSurfaceState s.events projections = .ok acc
  cached : CacheSound projections s

theorem valid_blank : Valid projections blank where
  refs_lt := fun r h => by cases h
  pending_lt := fun pending h => by cases h
  tracks := SurfaceManager.tracks_create []
  replays := ⟨_, rfl⟩
  cached := ⟨0, _, rfl, rfl, rfl, rfl⟩

variable {s : Session}

/-- Building an object changes no earlier denotation. -/
theorem heap_of_lt {event : SessionEvent} {r : Ref} (h : r < s.objects.length) :
    ({ s with objects := s.objects ++ [event] } : Session).heap r = s.heap r := by
  simp only [heap, List.getD_eq_getElem?_getD, List.getElem?_append_left h]

theorem events_build (h : ∀ r ∈ s.log, r < s.objects.length) (event : SessionEvent) :
    ({ s with objects := s.objects ++ [event] } : Session).events = s.events :=
  List.map_congr_left fun r hr => heap_of_lt (h r hr)

/-- Cache soundness looks at the denoted log and the cache fields only. -/
theorem CacheSound.congr {s' : Session} (h : CacheSound projections s)
    (hevents : s'.events = s.events) (hderived : s'.derived = s.derived)
    (hnodes : s'.derivedNodes = s.derivedNodes)
    (hgeneration : s'.derivedGeneration = s.derivedGeneration) : CacheSound projections s' := by
  unfold CacheSound
  rw [hevents, hderived, hnodes, hgeneration]
  exact h

theorem surfaceMessages_append {events : List SessionEvent} {projected : OrderedMap ℕ Json}
    {nodes : List ℕ} (more : List SessionEvent) (h : ∀ seq ∈ nodes, seq < events.length) :
    surfaceMessages (events ++ more) projected nodes = surfaceMessages events projected nodes :=
  List.filterMap_congr fun seq hseq => by rw [List.getElem?_append_left (h seq hseq)]

theorem surfaceMessages_cons (events : List SessionEvent) (projected : OrderedMap ℕ Json)
    (seq : ℕ) (nodes : List ℕ) :
    surfaceMessages events projected (seq :: nodes)
      = ((events[seq]?).bind fun event => deriveEventMessage event projected).toList
        ++ surfaceMessages events projected nodes := by
  unfold surfaceMessages
  cases h : (events[seq]?).bind fun event => deriveEventMessage event projected <;>
    simp [h]

/-- Validation builds the object, keeps the log and answers as the replay does. -/
theorem Valid.validateNext (h : Valid projections s) (event : SessionEvent) :
    let s' := (s.validateNext projections event).1
    s'.objects = s.objects ++ [event] ∧ s'.log = s.log ∧ s'.events = s.events ∧
    Valid projections s' ∧
    (s.validateNext projections event).2
      = (fun _ => ()) <$> foldSurfaceState (s.events ++ [event]) projections := by
  have hevents : (s.validateNext projections event).1.events = s.events :=
    events_build h.refs_lt event
  have htracks : SurfaceManager.Tracks
      ({ s with objects := s.objects ++ [event] } : Session).heap projections s.log
      s.surfaceManager :=
    h.tracks.congr_heap (fun r hr => heap_of_lt (h.refs_lt r hr))
      fun pending hp => heap_of_lt (h.pending_lt pending hp)
  have hlength : (s.validateNext projections event).1.objects.length = s.objects.length + 1 := by
    simp [Session.validateNext]
  obtain ⟨htracks', hverdict⟩ := htracks.validateNext s.objects.length
  refine ⟨rfl, rfl, hevents, ⟨?_, ?_, htracks', ?_, ?_⟩, ?_⟩
  · intro r hr
    rw [hlength]
    exact Nat.lt_succ_of_lt (h.refs_lt r hr)
  · intro pending hp
    rw [hlength]
    rcases SurfaceManager.pendingPlan_validateNext hp with hold | hnew
    · exact Nat.lt_succ_of_lt (h.pending_lt pending hold)
    · rw [hnew]
      exact Nat.lt_succ_self _
  · rw [hevents]
    exact h.replays
  · exact h.cached.congr hevents rfl rfl rfl
  · refine hverdict.trans ?_
    rw [List.map_append, List.map_singleton]
    congr 2
    · exact congrArg (· ++ _) hevents |>.trans (by simp [heap])

/-- The last object built joins the log when the replay accepts it there. -/
theorem Valid.pushLast {event : SessionEvent} {objects : List SessionEvent}
    (h : Valid projections s) (hobjects : s.objects = objects ++ [event])
    (hok : ∃ acc, foldSurfaceState (s.events ++ [event]) projections = .ok acc) :
    s.pushLast.events = s.events ++ [event] ∧ Valid projections s.pushLast := by
  have hlast : s.heap (s.objects.length - 1) = event := by
    simp [heap, hobjects]
  have hevents : s.pushLast.events = s.events ++ [event] := by
    simp only [events, Session.pushLast, List.map_append, List.map_singleton]
    exact congrArg (s.events ++ [·]) hlast
  have hpos : s.objects.length - 1 < s.objects.length := by
    simp [hobjects]
  refine ⟨hevents, ?_, h.pending_lt, h.tracks.push _, ?_, ?_⟩
  · intro r hr
    rcases List.mem_append.mp hr with hr | hr
    · exact h.refs_lt r hr
    · rw [List.mem_singleton.mp hr]
      exact hpos
  · rw [hevents]
    exact hok
  · obtain ⟨n, acc, hacc, hgeneration, hnodes, hderived⟩ := h.cached
    refine ⟨min n s.events.length, acc, ?_, hgeneration, hnodes, ?_⟩
    · rw [hevents, List.take_append_of_le_length (Nat.min_le_right _ _), ← List.take_eq_take_min]
      exact hacc
    · rw [hevents, surfaceMessages_append]
      · exact hderived
      · intro seq hseq
        exact Nat.lt_of_lt_of_le (nodes_lt_length hacc seq hseq) (List.length_take_le' _ _)

/-- An append keeps the session valid; the log grows by the returned event, or stands. -/
theorem Valid.append (h : Valid projections s) (call : AppendCall) :
    Valid projections (s.append projections call).1 ∧
    ((∃ message, (s.append projections call).2 = .error message
        ∧ (s.append projections call).1.events = s.events)
      ∨ ((s.append projections call).2 = .ok (s.candidate call)
        ∧ (s.append projections call).1.events = s.events ++ [s.candidate call])) := by
  unfold Session.append
  simp only
  split
  · rename_i message _
    exact ⟨h, .inl ⟨message, rfl, rfl⟩⟩
  · obtain ⟨hobjects, -, hevents, hvalid, hverdict⟩ := h.validateNext (s.candidate call)
    generalize s.validateNext projections (s.candidate call) = result at *
    obtain ⟨s', verdict⟩ := result
    cases verdict with
    | error message => exact ⟨hvalid, .inl ⟨message, rfl, hevents⟩⟩
    | ok _ =>
      cases call.dispatchFailure with
      | some message => exact ⟨hvalid, .inl ⟨message, rfl, hevents⟩⟩
      | none =>
        have hok : ∃ acc, foldSurfaceState (s'.events ++ [s.candidate call]) projections
            = .ok acc := by
          rw [hevents]
          cases hfold : foldSurfaceState (s.events ++ [s.candidate call]) projections with
          | error message =>
            rw [hfold] at hverdict
            cases hverdict
          | ok acc => exact ⟨acc, rfl⟩
        obtain ⟨hpushed, hvalid'⟩ := hvalid.pushLast hobjects hok
        rw [hevents] at hpushed
        exact ⟨hvalid', .inr ⟨rfl, hpushed⟩⟩

/-! ## Reading the cache -/

theorem Valid.withManager (h : Valid projections s) {m : SurfaceManager}
    (htracks : SurfaceManager.Tracks s.heap projections s.log m)
    (hpending : ∀ pending, m.pendingPlan = some pending →
      s.surfaceManager.pendingPlan = some pending) :
    Valid projections { s with surfaceManager := m } where
  refs_lt := h.refs_lt
  pending_lt := fun pending hp => h.pending_lt pending (hpending pending hp)
  tracks := htracks
  replays := h.replays
  cached := h.cached.congr rfl rfl rfl rfl

/-- A manager that a session could hold instead of its own. -/
structure Standby (projections : List SessionMessageProjection) (s : Session)
    (m : SurfaceManager) : Prop where
  tracks : SurfaceManager.Tracks s.heap projections s.log m
  pending : ∀ pending, m.pendingPlan = some pending → s.surfaceManager.pendingPlan = some pending

/-- A getter answers with the replay's value. -/
theorem Standby.read {m : SurfaceManager} (h : Standby projections s m) {α : Type}
    (value : SurfaceFoldState → α) (hacc : foldSurfaceState s.events projections = .ok acc) :
    ∃ m', m.read s.heap projections value s.log = (m', .ok (value acc.1))
      ∧ Standby projections s m' := by
  obtain ⟨htracks, hanswer⟩ := h.tracks.read value
  rw [← Session.events, hacc] at hanswer
  exact ⟨_, Prod.ext rfl hanswer, htracks,
    fun pending hp => h.pending pending (SurfaceManager.pendingPlan_read hp)⟩

/-- The loop over unseen nodes extends the cache by their messages. -/
theorem Standby.deriveNodes (hacc : foldSurfaceState s.events projections = .ok acc)
    (nodes : List ℕ) :
    ∀ {m : SurfaceManager} (derived : List Json), Standby projections s m →
    (∀ seq ∈ nodes, seq < s.log.length) →
    ∃ m', ({ s with surfaceManager := m, derived := derived } : Session).deriveNodes
          projections nodes
        = ({ s with surfaceManager := m', derived := derived
            ++ surfaceMessages s.events acc.1.projectedMessages nodes }, .ok ())
      ∧ Standby projections s m' := by
  induction nodes with
  | nil =>
    intro m derived h _
    exact ⟨m, by simp [Session.deriveNodes, surfaceMessages], h⟩
  | cons seq nodes ih =>
    intro m derived h hlt
    obtain ⟨event, hget⟩ : ∃ event, s.log[seq]? = some event :=
      ⟨_, List.getElem?_eq_getElem (hlt seq List.mem_cons_self)⟩
    have hevent : s.events[seq]? = some (s.heap event) := by
      rw [Session.events, List.getElem?_map, hget]
      rfl
    obtain ⟨m₁, hread, h₁⟩ := h.read
      (fun state => deriveEventMessage (s.heap event) state.projectedMessages) hacc
    obtain ⟨m₂, hrest, h₂⟩ := ih
      (derived ++ (deriveEventMessage (s.heap event) acc.1.projectedMessages).toList) h₁
      fun other hmem => hlt other (List.mem_cons_of_mem _ hmem)
    refine ⟨m₂, ?_, h₂⟩
    have hstep : ({ s with surfaceManager := m, derived := derived } : Session).deriveNodes
          projections (seq :: nodes)
        = ({ s with surfaceManager := m₁, derived := derived
            ++ (deriveEventMessage (s.heap event) acc.1.projectedMessages).toList } :
              Session).deriveNodes projections nodes := by
      have hheap : ({ s with surfaceManager := m, derived := derived } : Session).heap
          = s.heap := rfl
      rw [Session.deriveNodes]
      simp only [hget, hheap, hread]
    rw [hstep, hrest, surfaceMessages_cons, hevent, List.append_assoc]
    rfl

theorem Valid.nodes_lt (hacc : foldSurfaceState s.events projections = .ok acc) :
    ∀ seq ∈ acc.1.nodes, seq < s.log.length := by
  have hlen : s.events.length = s.log.length := List.length_map _
  rw [← hlen]
  exact nodes_lt_length hacc

/-- After the generation check, the cache holds the messages of the first `derivedNodes` nodes
of the current surface. -/
theorem Valid.resetDerived (h : Valid projections s)
    (hacc : foldSurfaceState s.events projections = .ok acc) :
    let s' := s.resetDerived acc.1.contentGeneration
    s'.derivedGeneration = acc.1.contentGeneration ∧
    s'.derived = surfaceMessages s.events acc.1.projectedMessages
      (acc.1.nodes.take s'.derivedNodes) := by
  intro s'
  by_cases hsame : acc.1.contentGeneration = s.derivedGeneration
  · have hs' : s' = s := by
      simp only [s', Session.resetDerived, hsame, ne_eq, not_true_eq_false, if_false]
    rw [hs']
    obtain ⟨n, old, hold, hgeneration, hnodes, hderived⟩ := h.cached
    have hsplit : foldSurfaceState (s.events.take n ++ s.events.drop n) projections = .ok acc := by
      rwa [List.take_append_drop]
    have hstable : ContentStable old.1 acc.1 := content_stable hold hsplit
    have heq : acc.1.contentGeneration = old.1.contentGeneration := hsame.trans hgeneration
    refine ⟨hsame.symm, ?_⟩
    rw [hderived, hnodes, hstable.messages_eq heq,
      ← List.prefix_iff_eq_take.mp (hstable.nodes_grow heq)]
  · have hs' : s' = { s with
        derived := [], derivedNodes := 0, derivedGeneration := acc.1.contentGeneration } := by
      simp only [s', Session.resetDerived, ne_eq, hsame, not_false_eq_true, if_true]
    rw [hs']
    exact ⟨rfl, by simp [surfaceMessages]⟩

/-- The cached derivation is the uncached one, and the session stays valid. -/
theorem Valid.deriveMessages (h : Valid projections s) :
    Valid projections (s.deriveMessages projections).1 ∧
    (s.deriveMessages projections).1.events = s.events ∧
    (s.deriveMessages projections).2 = derivedMessages s.events projections := by
  obtain ⟨acc, hacc⟩ := h.replays
  have hstandby : Standby projections s s.surfaceManager := ⟨h.tracks, fun _ hp => hp⟩
  obtain ⟨m₁, hnodes, h₁⟩ := hstandby.read (·.nodes) hacc
  obtain ⟨m₂, hgeneration, h₂⟩ := h₁.read (·.contentGeneration) hacc
  have hvalid₂ : Valid projections { s with surfaceManager := m₂ } :=
    h.withManager h₂.tracks h₂.pending
  obtain ⟨hgen, hderived⟩ := hvalid₂.resetDerived hacc
  unfold Session.deriveMessages
  simp only [hnodes, hgeneration]
  generalize hreset : ({ s with surfaceManager := m₂ } : Session).resetDerived
    acc.1.contentGeneration = s₂ at hgen hderived ⊢
  obtain ⟨hobjects, hlog, hmanager⟩ :
      s₂.objects = s.objects ∧ s₂.log = s.log ∧ s₂.surfaceManager = m₂ := by
    rw [← hreset, Session.resetDerived]
    split <;> exact ⟨rfl, rfl, rfl⟩
  have hheap : s₂.heap = s.heap := by
    unfold heap
    rw [hobjects]
  have hevents : s₂.events = s.events := by
    rw [Session.events, hlog, hheap]
    rfl
  have hstandby₂ : Standby projections s₂ s₂.surfaceManager := by
    refine ⟨?_, fun _ hp => hp⟩
    rw [hheap, hlog, hmanager]
    exact h₂.tracks
  have hlt : ∀ seq ∈ acc.1.nodes.drop s₂.derivedNodes, seq < s₂.log.length := by
    intro seq hmem
    rw [hlog]
    exact Valid.nodes_lt hacc seq (List.mem_of_mem_drop hmem)
  have hacc₂ : foldSurfaceState s₂.events projections = .ok acc := by rwa [hevents]
  obtain ⟨m₃, hloop, h₃⟩ := Standby.deriveNodes hacc₂ _ s₂.derived hstandby₂ hlt
  have hall : s₂.derived ++ surfaceMessages s₂.events acc.1.projectedMessages
        (acc.1.nodes.drop s₂.derivedNodes)
      = surfaceMessages s.events acc.1.projectedMessages acc.1.nodes := by
    rw [hderived, hevents]
    exact (List.filterMap_append.symm).trans (by rw [List.take_append_drop]; rfl)
  have hloop' : s₂.deriveNodes projections (acc.1.nodes.drop s₂.derivedNodes)
      = ({ s₂ with
          surfaceManager := m₃
          derived := surfaceMessages s.events acc.1.projectedMessages acc.1.nodes },
        .ok ()) := by
    rw [← hall]
    exact hloop
  simp only [hloop']
  refine ⟨⟨?_, ?_, h₃.tracks, ⟨acc, hacc₂⟩, ?_⟩, hevents, ?_⟩
  · simp only [hlog, hobjects]
    exact h.refs_lt
  · intro pending hp
    have hold : m₂.pendingPlan = some pending := by
      rw [← hmanager]
      exact h₃.pending pending hp
    rw [hobjects]
    exact hvalid₂.pending_lt pending hold
  · refine ⟨s.events.length, acc, ?_, hgen, rfl, ?_⟩
    · change foldSurfaceState (s₂.events.take s.events.length) projections = .ok acc
      rw [hevents, List.take_length]
      exact hacc
    · change surfaceMessages s.events acc.1.projectedMessages acc.1.nodes
        = surfaceMessages s₂.events acc.1.projectedMessages acc.1.nodes
      rw [hevents]
  · rw [derivedMessages, foldSurface_eq_map, hacc]
    rfl

end Session

end TianmaCoder
