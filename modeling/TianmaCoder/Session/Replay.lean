import TianmaCoder.Session.Derivation

/-!
# Constructing a session from its log

A constructor admits its seed one event at a time through the same manager as a live append,
after the shape checks of the seed boundary. It accepts exactly the logs that replay, whose
events pass those checks, and whose inherited cut is marked; the lifecycle marker it appends
is log-only, so the constructed session derives the messages of the seed.

## Main results

* `Session.create_ok_iff`, `Session.create_spec` — which seeds are accepted, and the log then.
* `Session.replay_eq` — cached, uncached and replayed derivations agree over every run.
-/

namespace TianmaCoder

open Checked

variable {projections : List SessionMessageProjection}

theorem find?_eq_none_of_declared (h : DeclaredProjections projections) {type : EventType}
    (htype : type.needsMessageProjection = false) :
    projections.find? (fun item => item.type == type) = none := by
  rw [List.find?_eq_none]
  intro projection hmem hbeq
  have hdeclared := h projection hmem
  rw [eq_of_beq hbeq, htype] at hdeclared
  cases hdeclared

variable {event : SessionEvent}

theorem planSurfaceEvent_logOnly (hdeclared : DeclaredProjections projections)
    (heligible : event.type.isSurfaceEligible = false)
    (hneed : event.type.needsMessageProjection = false) (hop : event.surfaceOp = none)
    (hsources : event.sourceEventSeqs = none) (state : SurfaceFoldState)
    (events : List SessionEvent) :
    planSurfaceEvent state event event.seq events 0 projections = .ok none := by
  have hnotDeveloper : event.type ≠ .developerMessage := by
    intro htype
    rw [htype] at heligible
    cases heligible
  have hop' : surfaceOpOf event = .ok none := by
    unfold surfaceOpOf
    simp only [heligible, hop, hsources, Bool.not_false, if_true, Option.isSome_none,
      Bool.false_eq_true, if_false, pure_eq, ite_self]
  have hmeta : validateSurfaceMetadata event = .ok none := by
    simp [validateSurfaceMetadata, hop']
  have hheader : assertDeveloperHeader event events 0 = .ok () := by
    simp [assertDeveloperHeader, hnotDeveloper]
  simp [planSurfaceEvent, hmeta, hheader, find?_eq_none_of_declared hdeclared hneed, hneed]

namespace Session

/-! ## The seed loop -/

theorem length_events (s : Session) : s.events.length = s.log.length := List.length_map _

/-- What one seed event must satisfy to be admitted after `events`. -/
def Admissible (projections : List SessionMessageProjection) (events : List SessionEvent)
    (event : SessionEvent) : Prop :=
  assertSessionEventEnvelope event events.length = .ok () ∧
    ∃ acc, foldSurfaceState (events ++ [event]) projections = .ok acc

variable {s : Session}

/-- An admissible seed event extends the log. -/
theorem Valid.seedEvent (h : Valid projections s)
    (hadmissible : Admissible projections s.events event) :
    ∃ s', s.seedEvent projections (event, s.events.length) = .ok s'
      ∧ Valid projections s' ∧ s'.events = s.events ++ [event] := by
  obtain ⟨hshape, acc, hacc⟩ := hadmissible
  have hseq : event.seq = s.events.length := by
    obtain ⟨_, plan, -, hplan, -⟩ := foldSurfaceState_snoc_ok_iff.mp hacc
    exact (planSurfaceEvent_cases hplan).1
  obtain ⟨hobjects, -, hevents, hvalid, hverdict⟩ := h.validateNext event
  rw [hacc] at hverdict
  unfold Session.seedEvent
  simp only [hshape, ok_bind, hseq, ne_eq, not_true_eq_false, if_false]
  generalize s.validateNext projections event = result at *
  obtain ⟨s', verdict⟩ := result
  have hverdict' : verdict = .ok () := hverdict
  subst hverdict'
  have hok : ∃ acc, foldSurfaceState (s'.events ++ [event]) projections = .ok acc :=
    ⟨acc, by rwa [hevents]⟩
  obtain ⟨hpushed, hvalid'⟩ := hvalid.pushLast hobjects hok
  rw [hevents] at hpushed
  exact ⟨s'.pushLast, rfl, hvalid', hpushed⟩

theorem Valid.admissible_of_seedEvent {s' : Session} (h : Valid projections s)
    (hok : s.seedEvent projections (event, s.events.length) = .ok s') :
    Admissible projections s.events event := by
  unfold Session.seedEvent at hok
  obtain ⟨⟨⟩, hshape, hok⟩ := bind_ok hok
  refine ⟨hshape, ?_⟩
  obtain ⟨-, -, -, -, hverdict⟩ := h.validateNext event
  cases hfold : foldSurfaceState (s.events ++ [event]) projections with
  | ok acc => exact ⟨acc, rfl⟩
  | error message =>
    rw [hfold] at hverdict
    generalize s.validateNext projections event = result at hok hverdict
    obtain ⟨s₁, verdict⟩ := result
    have hverdict' : verdict = .error message := hverdict
    subst hverdict'
    by_cases hseq : event.seq = s.events.length <;> simp [hseq] at hok

/-- Every event of a seed has the seed shape at its own index. -/
def SeedShaped (events : List SessionEvent) : Prop :=
  ∀ i (h : i < events.length), assertSessionEventEnvelope events[i] i = .ok ()

theorem seedShaped_snoc_iff (events : List SessionEvent) (event : SessionEvent) :
    SeedShaped (events ++ [event]) ↔
      SeedShaped events ∧ assertSessionEventEnvelope event events.length = .ok () := by
  constructor
  · intro h
    refine ⟨fun i hi => ?_, ?_⟩
    · have hget := h i (by simp; omega)
      rwa [List.getElem_append_left hi] at hget
    · have hget := h events.length (by simp)
      rwa [List.getElem_concat_length rfl] at hget
  · rintro ⟨h, hlast⟩ i hi
    by_cases hlt : i < events.length
    · rw [List.getElem_append_left hlt]
      exact h i hlt
    · have heq : i = events.length := by
        simp only [List.length_append, List.length_singleton] at hi
        omega
      subst heq
      rwa [List.getElem_concat_length rfl]

/-- The seed loop of the constructor. -/
def seedLoop (projections : List SessionMessageProjection) (seed : List SessionEvent) :
    Except String Session :=
  seed.zipIdx.foldlM (Session.seedEvent projections) blank

theorem seedLoop_snoc (seed : List SessionEvent) (event : SessionEvent) :
    seedLoop projections (seed ++ [event])
      = seedLoop projections seed >>= fun s => s.seedEvent projections (event, seed.length) := by
  rw [seedLoop, List.zipIdx_append, List.zipIdx_singleton, foldlM_snoc, Nat.zero_add]
  rfl

/-- What the seed loop leaves behind. -/
theorem seedLoop_spec {seed : List SessionEvent} (h : seedLoop projections seed = .ok s) :
    Valid projections s ∧ s.events = seed ∧ SeedShaped seed := by
  induction seed using List.reverseRecOn generalizing s with
  | nil =>
    cases h
    exact ⟨valid_blank, rfl, fun i hi => by cases hi⟩
  | append_singleton seed event ih =>
    rw [seedLoop_snoc, bind_ok_iff] at h
    obtain ⟨s₁, hpre, hlast⟩ := h
    obtain ⟨hvalid, hevents, hshaped⟩ := ih hpre
    rw [← hevents] at hlast
    have hadmissible := hvalid.admissible_of_seedEvent hlast
    obtain ⟨s₂, hseed, hvalid', hevents'⟩ := hvalid.seedEvent hadmissible
    rw [hseed] at hlast
    cases hlast
    rw [hevents] at hevents' hadmissible
    exact ⟨hvalid', hevents', (seedShaped_snoc_iff seed event).mpr ⟨hshaped, hadmissible.1⟩⟩

theorem seedLoop_ok {seed : List SessionEvent} (hshaped : SeedShaped seed)
    (hreplays : ∃ acc, foldSurfaceState seed projections = .ok acc) :
    ∃ s, seedLoop projections seed = .ok s := by
  induction seed using List.reverseRecOn with
  | nil => exact ⟨blank, rfl⟩
  | append_singleton seed event ih =>
    obtain ⟨hpre, hlast⟩ := (seedShaped_snoc_iff seed event).mp hshaped
    obtain ⟨acc, hacc⟩ := hreplays
    obtain ⟨acc₁, plan, hacc₁, -, -⟩ := foldSurfaceState_snoc_ok_iff.mp hacc
    obtain ⟨s₁, hs₁⟩ := ih hpre ⟨acc₁, hacc₁⟩
    obtain ⟨hvalid, hevents, -⟩ := seedLoop_spec hs₁
    rw [← hevents] at hlast hacc
    obtain ⟨s₂, hseed, -⟩ := hvalid.seedEvent ⟨hlast, acc, hacc⟩
    rw [hevents] at hseed
    exact ⟨s₂, by rw [seedLoop_snoc, hs₁, ok_bind, hseed]⟩

/-! ## The lifecycle marker -/

/-- The marker a constructor appends, at the end of the seed. -/
def endSeed (events : List SessionEvent) (data : Json) (now : ℤ) : SessionEvent where
  type := .sessionEndSeed
  seq := events.length
  time := now
  data := data

/-- A marker is log-only. -/
theorem plan_endSeed (hdeclared : DeclaredProjections projections) (state : SurfaceFoldState)
    (events : List SessionEvent) (data : Json) (now : ℤ) :
    planSurfaceEvent state (endSeed events data now) events.length events 0 projections
      = .ok none :=
  planSurfaceEvent_logOnly hdeclared rfl rfl rfl rfl state events

variable {events : List SessionEvent} {acc : SurfaceFoldState × List SurfaceFoldReplacement}

/-- The replay of a log that one log-only event extends. -/
theorem foldSurfaceState_snoc_none (hacc : foldSurfaceState events projections = .ok acc)
    (hplan : planSurfaceEvent acc.1 event events.length events 0 projections = .ok none) :
    foldSurfaceState (events ++ [event]) projections = .ok acc := by
  refine foldSurfaceState_snoc_ok_iff.mpr ⟨acc, none, hacc, hplan, ?_⟩
  simp [applySurfacePlan]

theorem derivedMessages_snoc_none (hacc : foldSurfaceState events projections = .ok acc)
    (hplan : planSurfaceEvent acc.1 event events.length events 0 projections = .ok none) :
    derivedMessages (events ++ [event]) projections = derivedMessages events projections := by
  unfold derivedMessages
  rw [foldSurface_eq_map, foldSurface_eq_map, hacc, foldSurfaceState_snoc_none hacc hplan]
  exact congrArg Except.ok (surfaceMessages_append [event] (nodes_lt_length hacc))

theorem candidate_endSeed (s : Session) (data : Json) (now : ℤ) :
    s.candidate { type := .sessionEndSeed, data := data, time := now }
      = endSeed s.events data now := by
  simp [candidate, endSeed, length_events]

theorem Valid.append_endSeed (h : Valid projections s) (hdeclared : DeclaredProjections projections)
    (data : Json) (now : ℤ) :
    (s.append projections { type := .sessionEndSeed, data := data, time := now }).2
        = .ok (endSeed s.events data now) := by
  obtain ⟨acc, hacc⟩ := h.replays
  have hfold := foldSurfaceState_snoc_none hacc
    (plan_endSeed hdeclared acc.1 s.events data now)
  obtain ⟨-, -, -, -, hverdict⟩ := h.validateNext (endSeed s.events data now)
  rw [hfold] at hverdict
  unfold Session.append
  simp only [candidate_endSeed]
  have hdata : ∀ subject, validateSessionEventData (endSeed s.events data now) subject
      = .ok () := fun _ => rfl
  simp only [hdata]
  generalize s.validateNext projections (endSeed s.events data now) = result at hverdict ⊢
  obtain ⟨s', verdict⟩ := result
  have hverdict' : verdict = .ok () := hverdict
  subst hverdict'
  rfl

/-! ## The constructor -/

/-- The events a constructor appends after its seed. -/
def seedMarkers (events : List SessionEvent) (seeded hasSeed : Bool) (inherited : ℕ) (now : ℤ) :
    List SessionEvent :=
  ((seedMarker events seeded hasSeed inherited).map fun data => endSeed events data now).toList

/-- What a constructed session is. -/
structure Constructed (projections : List SessionMessageProjection) (seed : List SessionEvent)
    (seeded hasSeed : Bool) (supplied : Option ℕ) (now : ℤ) (s : Session) : Prop where
  valid : Valid projections s
  isSeeded_eq : s.isSeeded = seeded
  shaped : SeedShaped seed
  cut : checkInherited seed seeded hasSeed supplied = .ok s.inheritedEventCount
  events_eq : s.events = seed ++ seedMarkers seed seeded hasSeed s.inheritedEventCount now

/-- Header fields play no part in validity. -/
theorem Valid.withHeader (h : Valid projections s) (seeded : Bool) (inherited : ℕ) :
    Valid projections { s with isSeeded := seeded, inheritedEventCount := inherited } where
  refs_lt := h.refs_lt
  pending_lt := h.pending_lt
  tracks := h.tracks
  replays := h.replays
  cached := h.cached.congr rfl rfl rfl rfl

theorem append_header (projections : List SessionMessageProjection) (s : Session)
    (call : AppendCall) :
    (s.append projections call).1.isSeeded = s.isSeeded ∧
      (s.append projections call).1.inheritedEventCount = s.inheritedEventCount := by
  unfold Session.append
  simp only
  split
  · exact ⟨rfl, rfl⟩
  · have hheader : (s.validateNext projections (s.candidate call)).1.isSeeded = s.isSeeded ∧
        (s.validateNext projections (s.candidate call)).1.inheritedEventCount
          = s.inheritedEventCount := ⟨rfl, rfl⟩
    generalize s.validateNext projections (s.candidate call) = result at hheader ⊢
    obtain ⟨s', verdict⟩ := result
    cases verdict with
    | error message => exact hheader
    | ok _ => cases call.dispatchFailure <;> exact hheader

/-- The session between the seed loop and the marker. -/
private def afterLoop (s : Session) (seeded : Bool) (inherited : ℕ) : Session :=
  { s with isSeeded := seeded, inheritedEventCount := inherited }

private theorem create_eq (seed : Option (List SessionEvent)) (seeded : Bool)
    (supplied : Option ℕ) (now : ℤ) :
    create projections seed seeded supplied now
      = seedLoop projections (seed.getD []) >>= fun s =>
        checkInherited s.events seeded seed.isSome supplied >>= fun inherited =>
        match seedMarker (afterLoop s seeded inherited).events seeded seed.isSome inherited with
        | none => .ok (afterLoop s seeded inherited)
        | some data =>
          match (afterLoop s seeded inherited).append projections
              { type := .sessionEndSeed, data := data, time := now } with
          | (_, .error message) => .error message
          | (s, .ok _) => .ok s := rfl

/-- A constructor that returns, returns what its seed says. -/
theorem create_spec {seed : Option (List SessionEvent)} {seeded : Bool} {supplied : Option ℕ}
    {now : ℤ} (h : create projections seed seeded supplied now = .ok s) :
    Constructed projections (seed.getD []) seeded seed.isSome supplied now s := by
  rw [create_eq] at h
  obtain ⟨s₁, hloop, h⟩ := bind_ok h
  obtain ⟨inherited, hcut, h⟩ := bind_ok h
  obtain ⟨hvalid, hevents, hshaped⟩ := seedLoop_spec hloop
  rw [hevents] at hcut
  have hvalid₂ : Valid projections (afterLoop s₁ seeded inherited) :=
    hvalid.withHeader seeded inherited
  have hevents₂ : (afterLoop s₁ seeded inherited).events = seed.getD [] := hevents
  rw [hevents₂] at h
  cases hmarker : seedMarker (seed.getD []) seeded seed.isSome inherited with
  | none =>
    rw [hmarker] at h
    cases h
    refine ⟨hvalid₂, rfl, hshaped, hcut, ?_⟩
    change (afterLoop s₁ seeded inherited).events
      = seed.getD [] ++ seedMarkers (seed.getD []) seeded seed.isSome inherited now
    simp [seedMarkers, hmarker, hevents₂]
  | some data =>
    rw [hmarker] at h
    simp only at h
    obtain ⟨hvalid₃, hresult⟩ := hvalid₂.append
      { type := .sessionEndSeed, data := data, time := now }
    obtain ⟨hseeded, hcount⟩ := append_header projections
      (afterLoop s₁ seeded inherited) { type := .sessionEndSeed, data := data, time := now }
    rw [candidate_endSeed, hevents₂] at hresult
    generalize (afterLoop s₁ seeded inherited).append projections
      { type := .sessionEndSeed, data := data, time := now } = result
      at h hvalid₃ hresult hseeded hcount
    obtain ⟨s₃, verdict⟩ := result
    rcases hresult with ⟨message, herror, -⟩ | ⟨hok, hevents₃⟩
    · have herror' : verdict = .error message := herror
      subst herror'
      cases h
    · have hok' : verdict = .ok (endSeed (seed.getD []) data now) := hok
      subst hok'
      cases h
      have hcount' : s.inheritedEventCount = inherited := hcount
      refine ⟨hvalid₃, hseeded, hshaped, by rw [hcount']; exact hcut, ?_⟩
      rw [hcount', seedMarkers, hmarker]
      exact hevents₃

theorem create_ok_iff (hdeclared : DeclaredProjections projections)
    {seed : Option (List SessionEvent)} {seeded : Bool} {supplied : Option ℕ} {now : ℤ} :
    (∃ s, create projections seed seeded supplied now = .ok s) ↔
      SeedShaped (seed.getD []) ∧
      (∃ acc, foldSurfaceState (seed.getD []) projections = .ok acc) ∧
      ∃ inherited, checkInherited (seed.getD []) seeded seed.isSome supplied = .ok inherited := by
  constructor
  · rintro ⟨s, h⟩
    rw [create_eq] at h
    obtain ⟨s₁, hloop, h⟩ := bind_ok h
    obtain ⟨inherited, hcut, -⟩ := bind_ok h
    obtain ⟨hvalid, hevents, hshaped⟩ := seedLoop_spec hloop
    rw [hevents] at hcut
    exact ⟨hshaped, hevents ▸ hvalid.replays, inherited, hcut⟩
  · rintro ⟨hshaped, hreplays, inherited, hcut⟩
    obtain ⟨s₁, hloop⟩ := seedLoop_ok hshaped hreplays
    obtain ⟨hvalid, hevents, -⟩ := seedLoop_spec hloop
    rw [create_eq, hloop, ok_bind, hevents, hcut, ok_bind]
    have hvalid₂ : Valid projections (afterLoop s₁ seeded inherited) :=
      hvalid.withHeader seeded inherited
    cases hmarker : seedMarker (afterLoop s₁ seeded inherited).events seeded seed.isSome
        inherited with
    | none => exact ⟨_, rfl⟩
    | some data =>
      have happend := hvalid₂.append_endSeed hdeclared data now
      simp only
      generalize (afterLoop s₁ seeded inherited).append projections
        { type := .sessionEndSeed, data := data, time := now } = result at happend ⊢
      obtain ⟨s₃, verdict⟩ := result
      have hverdict : verdict = .ok _ := happend
      subst hverdict
      exact ⟨s₃, rfl⟩

theorem derivedMessages_seedMarkers (hdeclared : DeclaredProjections projections)
    (hacc : foldSurfaceState events projections = .ok acc) (seeded hasSeed : Bool) (inherited : ℕ)
    (now : ℤ) :
    derivedMessages (events ++ seedMarkers events seeded hasSeed inherited now) projections
      = derivedMessages events projections := by
  unfold seedMarkers
  cases seedMarker events seeded hasSeed inherited with
  | none => simp
  | some data =>
    exact derivedMessages_snoc_none hacc (plan_endSeed hdeclared acc.1 events data now)

end Session

/-! ## Runs of a session -/

/-- A use of a live session. -/
inductive SessionCall where
  | append (call : AppendCall)
  | deriveMessages

/-- The answer to a use. -/
inductive SessionAnswer where
  | appended (result : Except String SessionEvent)
  | messages (result : Except String (List Json))

/-- A live session as a machine. -/
def sessionMachine (projections : List SessionMessageProjection) :
    Machine Session SessionCall SessionAnswer where
  step s
    | .append call =>
      let (s, result) := s.append projections call
      (s, .appended result)
    | .deriveMessages =>
      let (s, result) := s.deriveMessages projections
      (s, .messages result)

/-- Every run keeps a session valid. -/
theorem Session.Valid.after {s : Session} (h : s.Valid projections) (calls : List SessionCall) :
    ((sessionMachine projections).after s calls).Valid projections := by
  refine Machine.after_induction (sessionMachine projections)
    (motive := Session.Valid projections) h ?_ calls
  intro s call hvalid
  cases call with
  | append call => exact (hvalid.append call).1
  | deriveMessages => exact hvalid.deriveMessages.1

/-- The constructor arguments that replay a session from its own log. -/
def Session.replay (projections : List SessionMessageProjection) (s : Session) (now : ℤ) :
    Except String Session :=
  Session.create projections (some s.events) s.isSeeded
    (if s.isSeeded then some s.inheritedEventCount else none) now

/-- After any appends and reads, the cached derivation is the uncached one; a session replayed
from the log derives the same messages, and the log is replayed exactly when its events have the
seed shape and its inherited cut is marked. -/
theorem deriveMessages_eq_replay (hdeclared : DeclaredProjections projections)
    {seed : Option (List SessionEvent)} {seeded : Bool} {supplied : Option ℕ} {created : ℤ}
    {s₀ : Session} (hcreate : Session.create projections seed seeded supplied created = .ok s₀)
    (calls : List SessionCall) (now : ℤ) : let s := (sessionMachine projections).after s₀ calls
    (s.deriveMessages projections).2 = derivedMessages s.events projections
    ∧ (∀ s', s.replay projections now = .ok s' →
        (s'.deriveMessages projections).2 = (s.deriveMessages projections).2)
    ∧ ((∃ s', s.replay projections now = .ok s') ↔
        Session.SeedShaped s.events ∧ ∃ inherited,
          Session.checkInherited s.events s.isSeeded true
            (if s.isSeeded then some s.inheritedEventCount else none) = .ok inherited) := by
  intro s
  have hvalid : s.Valid projections := (Session.create_spec hcreate).valid.after calls
  have hcached := hvalid.deriveMessages.2.2
  refine ⟨hcached, ?_, ?_⟩
  · intro s' hreplay
    have hconstructed := Session.create_spec hreplay
    obtain ⟨acc, hacc⟩ := hvalid.replays
    rw [hconstructed.valid.deriveMessages.2.2, hconstructed.events_eq, hcached]
    exact Session.derivedMessages_seedMarkers hdeclared hacc _ _ _ _
  · rw [Session.replay, Session.create_ok_iff hdeclared]
    constructor
    · rintro ⟨hshaped, -, hcut⟩
      exact ⟨hshaped, hcut⟩
    · rintro ⟨hshaped, hcut⟩
      exact ⟨hshaped, hvalid.replays, hcut⟩

/-- A `tool/result` whose message names another call than its source. -/
def mismatchedResult : AppendCall where
  type := .toolResult
  data := .obj [("turn", .nat 0), ("step", .nat 0),
    ("message", .obj [("id", .str "m"), ("role", .str "tool"), ("toolCallId", .str "b"),
      ("source", .obj [("kind", .str "tool"), ("callId", .str "a")]), ("content", .arr [])])]
  surfaceOp := some (.str "append")
  time := 0

/-- An ordinary prompt. -/
def promptCall : AppendCall where
  type := .userMessage
  data := .obj [("id", .str "m"), ("role", .str "user"),
    ("source", .obj [("kind", .str "user")]), ("content", .arr [])]
  surfaceOp := some (.str "append")
  time := 0

/-- A live log may hold an event that its own replay refuses. -/
theorem replay_refuses_mismatchedResult :
    let s := (sessionMachine []).after Session.blank [.append mismatchedResult]
    Session.create [] none false none 0 = .ok Session.blank
    ∧ s.events.map (·.type) = [.toolResult]
    ∧ (s.deriveMessages []).2.toOption.map List.length = some 1
    ∧ ∀ s', s.replay [] 0 ≠ .ok s' := by
  refine ⟨rfl, by decide, by decide, ?_⟩
  intro s' h
  have hshaped := ((Session.create_ok_iff (fun _ h => by cases h)).mp ⟨s', h⟩).1
  exact absurd (hshaped 0 (by decide)) (by decide)

/-- The replay of one prompt derives the prompt. -/
theorem deriveMessages_eq_replay_prompt :
    let s := (sessionMachine []).after Session.blank [.append promptCall, .deriveMessages]
    (s.deriveMessages []).2 = derivedMessages s.events []
    ∧ (∀ s', s.replay [] 0 = .ok s' → (s'.deriveMessages []).2 = (s.deriveMessages []).2)
    ∧ ((∃ s', s.replay [] 0 = .ok s') ↔
        Session.SeedShaped s.events ∧ ∃ inherited,
          Session.checkInherited s.events s.isSeeded true
            (if s.isSeeded then some s.inheritedEventCount else none) = .ok inherited) := by
  have hdeclared : DeclaredProjections [] := fun _ h => by cases h
  have hcreate : Session.create [] none false none 0 = .ok Session.blank := rfl
  exact deriveMessages_eq_replay hdeclared hcreate [.append promptCall, .deriveMessages] 0

end TianmaCoder
