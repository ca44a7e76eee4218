import TianmaCoder.Compaction.Invariant
import TianmaCoder.Session.Derivation

/-!
# Sessions under the compaction invariant

An attached session is a log with the trace that the compaction companion keeps for it. An
append is checked by the session, then by the companion, then by the other internal dispatch
listeners, and commits only when none refuses.

## Main definitions

* `Attached.append` — one append, refused or committed.
* `Attached.Sound` — the log replays, and the trace is the one its events left behind.

## Main results

* `Attached.append_cases` — what a committed append is.
* `Attached.Sound.append` — an append keeps the invariant.
* `Attached.append_refines` — an attached append is an append of the session whose dispatch
  runs the companion.
-/

namespace TianmaCoder

open Checked

/-- The surface state of a log that the surface rules accept. -/
def surfaceState (projections : List SessionMessageProjection) (log : List SessionEvent) :
    SurfaceFoldState :=
  match foldSurfaceState log projections with
  | .ok acc => acc.1
  | .error _ => createFoldState

theorem surfaceState_eq {projections : List SessionMessageProjection} {log : List SessionEvent}
    {acc : SurfaceFoldState × List SurfaceFoldReplacement}
    (h : foldSurfaceState log projections = .ok acc) : surfaceState projections log = acc.1 := by
  simp only [surfaceState, h]

namespace Compaction

/-- A session log and the trace of the companion. -/
structure Attached where
  log : List SessionEvent
  trace : Trace
  deriving DecidableEq

variable (projections : List SessionMessageProjection)

namespace Attached

/-- The event an append builds. -/
def candidate (s : Attached) (call : AppendCall) : SessionEvent where
  type := call.type
  seq := s.log.length
  time := call.time
  data := call.data
  surfaceOp := call.surfaceOp
  sourceEventSeqs := call.sourceEventSeqs

/-- Append one event; `dispatchFailure` is what the other listeners refuse. -/
def append (s : Attached) (call : AppendCall) : Except String Attached := do
  let event := s.candidate call
  validateSessionEventData event
    s!"session event \"{call.type.name}\" at seq {s.log.length}"
  let _ ← planSurfaceEvent (surfaceState projections s.log) event s.log.length s.log 0 projections
  let trace ← s.trace.accept projections event
  match call.dispatchFailure with
  | some message => throw message
  | none => return ⟨s.log ++ [event], trace⟩

end Attached

/-- The trace of a session that was constructed over `seed` and has the log `log` now. -/
def liveTrace (seed log : List SessionEvent) : Except String Trace := do
  let trace ← seedTrace projections seed
  (log.drop seed.length).foldlM (Trace.accept projections) trace

namespace Attached

/-- What every append keeps: the log replays, it extends the seed, and the trace is the one
that its events left behind. -/
structure Sound (seed : List SessionEvent) (s : Attached) : Prop where
  extends_seed : seed <+: s.log
  replays : ∃ acc, foldSurfaceState s.log projections = .ok acc
  traced : liveTrace projections seed s.log = .ok s.trace

variable {projections}

/-- A committed append was accepted by the surface rules and by both compaction checks. -/
theorem append_cases {s s' : Attached} {call : AppendCall}
    (h : s.append projections call = .ok s') :
    ∃ plan transition,
      planSurfaceEvent (surfaceState projections s.log) (s.candidate call) s.log.length s.log 0
        projections = .ok plan ∧
      validateTurnBoundary s.trace (s.candidate call) = .ok () ∧
      validateCompactionEvent projections s.trace (s.candidate call) = .ok transition ∧
      call.dispatchFailure = none ∧
      s' = ⟨s.log ++ [s.candidate call], s.trace.commit (s.candidate call) transition⟩ := by
  unfold append at h
  obtain ⟨_, -, h⟩ := bind_ok h
  obtain ⟨plan, hplan, h⟩ := bind_ok h
  obtain ⟨trace, htrace, h⟩ := bind_ok h
  unfold Trace.accept at htrace
  obtain ⟨_, hboundary, htrace⟩ := bind_ok htrace
  obtain ⟨transition, htransition, htrace⟩ := bind_ok htrace
  cases hdispatch : call.dispatchFailure with
  | some message =>
    rw [hdispatch] at h
    cases h
  | none =>
    rw [hdispatch] at h
    cases htrace
    cases h
    exact ⟨plan, transition, hplan, hboundary, htransition, rfl, rfl⟩

theorem log_append {s s' : Attached} {call : AppendCall}
    (h : s.append projections call = .ok s') : s'.log = s.log ++ [s.candidate call] := by
  obtain ⟨_, _, -, -, -, -, rfl⟩ := append_cases h
  rfl

theorem liveTrace_snoc {seed log : List SessionEvent} {event : SessionEvent}
    (hseed : seed <+: log) :
    liveTrace projections seed (log ++ [event])
      = (liveTrace projections seed log >>= fun trace => trace.accept projections event) := by
  have hle : seed.length ≤ log.length := hseed.length_le
  unfold liveTrace
  rw [List.drop_append_of_le_length hle, bind_assoc]
  congr 1
  funext trace
  exact foldlM_snoc _ _ _ _

theorem Sound.append {seed : List SessionEvent} {s s' : Attached} {call : AppendCall}
    (h : Sound projections seed s) (happend : s.append projections call = .ok s') :
    Sound projections seed s' := by
  obtain ⟨plan, transition, hplan, hboundary, htransition, -, rfl⟩ := append_cases happend
  obtain ⟨acc, hacc⟩ := h.replays
  rw [surfaceState_eq hacc] at hplan
  refine ⟨h.extends_seed.trans (List.prefix_append _ _), ?_, ?_⟩
  · have hnext : ∃ acc', foldSurfaceState (s.log ++ [s.candidate call]) projections = .ok acc' :=
      ⟨_, (foldSurfaceState_snoc_ok_iff).mpr ⟨acc, plan, hacc, hplan, rfl⟩⟩
    exact hnext
  · rw [liveTrace_snoc h.extends_seed, h.traced, ok_bind]
    simp only [Trace.accept, hboundary, ok_bind, htransition]
    rfl

theorem sound_seed {seed : List SessionEvent} {trace : Trace}
    (hreplays : ∃ acc, foldSurfaceState seed projections = .ok acc)
    (htrace : seedTrace projections seed = .ok trace) : Sound projections seed ⟨seed, trace⟩ where
  extends_seed := List.prefix_refl _
  replays := hreplays
  traced := by
    unfold liveTrace
    rw [htrace, ok_bind, List.drop_length]
    rfl

/-! ## The session below -/

variable (projections) in
/-- What the internal dispatch of an append refuses: the companion, then the other listeners. -/
def dispatch (s : Attached) (call : AppendCall) : Option String :=
  match s.trace.accept projections (s.candidate call) with
  | .error message => some message
  | .ok _ => call.dispatchFailure

variable (projections) in
/-- The verdict of a session append, check by check. -/
theorem append_verdict (session : Session) (call : AppendCall) :
    (session.append projections call).2
      = (validateSessionEventData (session.candidate call)
            s!"session event \"{call.type.name}\" at seq {session.log.length}" >>= fun _ =>
          (session.validateNext projections (session.candidate call)).2 >>= fun _ =>
          match call.dispatchFailure with
          | some message => .error message
          | none => .ok (session.candidate call)) := by
  unfold Session.append
  simp only
  cases validateSessionEventData (session.candidate call)
      s!"session event \"{call.type.name}\" at seq {session.log.length}" with
  | error message => rfl
  | ok _ =>
    rcases session.validateNext projections (session.candidate call) with ⟨s', verdict⟩
    cases verdict with
    | error message => rfl
    | ok _ => cases call.dispatchFailure <;> rfl

theorem append_refines {session : Session} {s : Attached}
    (hvalid : Session.Valid projections session) (hevents : session.events = s.log)
    (call : AppendCall) :
    let attached := { call with dispatchFailure := s.dispatch projections call }
    (session.append projections attached).2
        = (fun _ => s.candidate call) <$> s.append projections call ∧
      (session.append projections attached).1.events
        = match s.append projections call with
          | .ok s' => s'.log
          | .error _ => s.log := by
  intro attached
  have hlength : session.log.length = s.log.length := by
    rw [← hevents, Session.events, List.length_map]
  have hcandidate : session.candidate attached = s.candidate call := by
    simp only [Session.candidate, candidate, hlength, attached]
  obtain ⟨acc, hacc⟩ := hvalid.replays
  have hstate : surfaceState projections s.log = acc.1 := surfaceState_eq (hevents ▸ hacc)
  have hverdict : (session.append projections attached).2
      = (fun _ => s.candidate call) <$> s.append projections call := by
    rw [append_verdict, hcandidate, (hvalid.validateNext (s.candidate call)).2.2.2.2, hlength,
      foldSurfaceState_snoc, hacc, ok_bind, hevents, append, hstate]
    simp only [foldSurfaceStep, applySurfaceEvent, attached, dispatch]
    cases validateSessionEventData (s.candidate call)
        s!"session event \"{call.type.name}\" at seq {s.log.length}" with
    | error message => rfl
    | ok _ =>
      cases planSurfaceEvent acc.1 (s.candidate call) s.log.length s.log 0 projections with
      | error message => rfl
      | ok plan =>
        cases s.trace.accept projections (s.candidate call) with
        | error message => rfl
        | ok trace => cases call.dispatchFailure <;> rfl
  refine ⟨hverdict, ?_⟩
  have hkept := (hvalid.append attached).2
  rw [hverdict, hcandidate, hevents] at hkept
  cases happend : s.append projections call with
  | ok s' =>
    rw [happend] at hkept
    rcases hkept with ⟨message, hbad, -⟩ | ⟨-, hkept⟩
    · cases hbad
    · rw [hkept]
      exact (log_append happend).symm
  | error message =>
    rw [happend] at hkept
    rcases hkept with ⟨_, -, hkept⟩ | ⟨hbad, -⟩
    · exact hkept
    · cases hbad

end Attached

end Compaction

end TianmaCoder
