import TianmaCoder.Persistence.LiveBuffer

/-!
# The write path

What the file of a write handle holds: one header, the committed events, the recovered
events once they are rewritten, and the batches persisted since, contiguous from seq 0. The
three steps of a torn-tail repair remember their progress in the log state, so a rejected
primitive leaves a state from which the next mutation goes on.

## Main definitions

* `Stored` — the file and the log state agree.
* `Ready` — what holds while a turn awaits a primitive.
* `WellWritten` — what a caller finds when no turn is in flight.

## Main results

* `WritePath.of_run` — `Stored` and `Ready` hold along every run.
* `wellWritten_of_run` — every quiescent point of every run is well written, and drained
  runs over the same events persist the same events.
-/

namespace TianmaCoder

namespace HandleOrigin

/-- The events the file holds when the handle is made. -/
def committed : HandleOrigin → List SessionEvent
  | .created _ => []
  | .opened log => log.committed

/-- The events recovered from the torn tail. -/
def recoveredTail : HandleOrigin → List SessionEvent
  | .created _ => []
  | .opened log => log.recoveredTail

/-- The lines after the committed ones. -/
def tornTail : HandleOrigin → List StoredLine
  | .created _ => []
  | .opened log => log.tornTail

def inheritedEventCount : HandleOrigin → ℕ
  | .created inheritedEventCount => inheritedEventCount
  | .opened log => log.inheritedEventCount

end HandleOrigin

variable {batch : List SessionEvent}

theorem assertContiguous_append {events : List SessionEvent} {cursor : ℕ} :
    assertContiguous (events ++ batch) cursor = true ↔
      assertContiguous events cursor = true ∧
        assertContiguous batch (cursor + events.length) = true := by
  unfold assertContiguous
  rw [decide_eq_true_iff, decide_eq_true_iff, decide_eq_true_iff, List.map_append,
    List.length_append, ← List.range'_append_1]
  constructor
  · intro heq
    exact List.append_inj heq (by simp)
  · rintro ⟨hevents, hbatch⟩
    rw [hevents, hbatch]

variable {o : HandleOrigin}

/-- The file and the log state agree on what is committed, rewritten and persisted. -/
structure Stored (o : HandleOrigin) (s : HandleStorage) : Prop where
  inherited : s.state.inheritedEventCount = o.inheritedEventCount
  absent : s.state.materialized = false →
    s.file = [] ∧ s.written = [] ∧ o.committed = [] ∧ o.recoveredTail = [] ∧
      s.state.tornTruncateTo = none ∧ s.state.recoveredTail = none
  file : s.state.materialized = true →
    s.file = .header o.inheritedEventCount :: o.committed.map .event
      ++ (if s.state.recoveredTail.isSome then [] else o.recoveredTail.map .event)
      ++ (s.written.map (·.2)).map .event
      ++ (if s.state.tornTruncateTo.isSome then o.tornTail else [])
  recovered : ∀ r, s.state.recoveredTail = some r → r = o.recoveredTail ∧ s.written = []
  torn : ∀ n, s.state.tornTruncateTo = some n →
    n = o.committed.length + 1 ∧ s.state.recoveredTail.isSome
  cursor : s.state.cursor = o.committed.length + o.recoveredTail.length + s.written.length
  contiguous :
    assertContiguous (o.committed ++ o.recoveredTail ++ s.written.map (·.2)) 0 = true

namespace Stored

variable {s : HandleStorage}

theorem of_origin (o : HandleOrigin) : Stored o o.handle.storage := by
  cases o with
  | created n =>
    constructor <;>
      simp [HandleOrigin.handle, JsonlSessionHandle.create, JsonlSessionHandle.idle,
        HandleOrigin.inheritedEventCount, HandleOrigin.committed, HandleOrigin.recoveredTail,
        assertContiguous]
  | opened log =>
    have htail : (if log.tornTruncateTo.isSome then log.tornTail else []) = log.tornTail := by
      unfold StoredLog.tornTruncateTo StoredLog.tornTail
      by_cases hbytes : log.tornBytes = [] <;> simp [hbytes]
    constructor
    · rfl
    · intro h
      cases h
    · intro _
      change _ = _ ++ (if log.tornTruncateTo.isSome then log.tornTail else [])
      rw [htail]
      simp [HandleOrigin.handle, JsonlSessionHandle.openWrite, JsonlSessionHandle.idle,
        HandleOrigin.inheritedEventCount, HandleOrigin.committed]
    · intro r hr
      cases hr
      exact ⟨rfl, rfl⟩
    · intro n hn
      change log.tornTruncateTo = some n at hn
      unfold StoredLog.tornTruncateTo at hn
      split at hn
      · cases hn
      · cases hn
        exact ⟨rfl, rfl⟩
    · change (log.committed ++ log.recoveredTail).length = _
      simp [HandleOrigin.committed, HandleOrigin.recoveredTail, HandleOrigin.handle,
        JsonlSessionHandle.openWrite, JsonlSessionHandle.idle]
    · have hcontiguous := log.contiguous
      simpa [HandleOrigin.committed, HandleOrigin.recoveredTail, HandleOrigin.handle,
        JsonlSessionHandle.openWrite, JsonlSessionHandle.idle] using hcontiguous

/-- Acquiring the lease touches nothing else. -/
theorem lease (hs : Stored o s) (held : Bool) : Stored o { s with lease := held } :=
  ⟨hs.inherited, hs.absent, hs.file, hs.recovered, hs.torn, hs.cursor, hs.contiguous⟩

theorem materialized_of_recoveredTail (hs : Stored o s) {r : List SessionEvent}
    (hr : s.state.recoveredTail = some r) : s.state.materialized = true := by
  by_contra hmat
  have habsent := hs.absent (by simpa using hmat)
  simp [habsent.2.2.2.2.2] at hr

/-- Truncating at the recorded offset keeps the committed lines. -/
theorem truncate (hs : Stored o s) {offset : ℕ} (htorn : s.state.tornTruncateTo = some offset) :
    Stored o
      { s with
        file := s.file.take offset
        state := { s.state with tornTruncateTo := none } } := by
  have ⟨hoffset, hpending⟩ := hs.torn offset htorn
  have ⟨r, hr⟩ := Option.isSome_iff_exists.mp hpending
  have ⟨_, hnone⟩ := hs.recovered r hr
  have hmat := hs.materialized_of_recoveredTail hr
  have hfile : s.file.take offset
      = .header o.inheritedEventCount :: o.committed.map .event := by
    rw [hs.file hmat, hpending, hnone, hoffset]
    simp
  constructor
  · exact hs.inherited
  · intro hmat'
    rw [hmat] at hmat'
    cases hmat'
  · intro _
    simp [hfile, hr, hnone]
  · exact hs.recovered
  · nofun
  · exact hs.cursor
  · exact hs.contiguous

theorem clearRecovered (hs : Stored o s) (htorn : s.state.tornTruncateTo = none)
    (hempty : s.state.recoveredTail = some []) :
    Stored o { s with state := { s.state with recoveredTail := none } } := by
  have ⟨hrecovered, _⟩ := hs.recovered [] hempty
  constructor
  · exact hs.inherited
  · intro hmat
    have habsent := hs.absent hmat
    exact ⟨habsent.1, habsent.2.1, habsent.2.2.1, habsent.2.2.2.1, habsent.2.2.2.2.1, rfl⟩
  · intro hmat
    have hfile := hs.file hmat
    rw [hempty] at hfile
    simpa [← hrecovered] using hfile
  · nofun
  · intro n hn
    rw [show s.state.tornTruncateTo = some n from hn] at htorn
    cases htorn
  · exact hs.cursor
  · exact hs.contiguous

variable {file : List StoredLine}

theorem persistRecovered (hs : Stored o s) (htorn : s.state.tornTruncateTo = none)
    {r : List SessionEvent} (hr : s.state.recoveredTail = some r)
    (hfile : s.persistBatch r = some file) :
    Stored o { s with file := file, state := { s.state with recoveredTail := none } } := by
  have ⟨hrecovered, hnone⟩ := hs.recovered r hr
  have hmat := hs.materialized_of_recoveredTail hr
  rw [HandleStorage.persistBatch, if_pos hmat, Option.some.injEq] at hfile
  constructor
  · exact hs.inherited
  · intro hmat'
    rw [hmat] at hmat'
    cases hmat'
  · intro _
    rw [← hfile, hs.file hmat, hr, htorn, hnone, hrecovered]
    simp
  · nofun
  · intro n hn
    rw [show s.state.tornTruncateTo = some n from hn] at htorn
    cases htorn
  · exact hs.cursor
  · exact hs.contiguous

theorem persistBatch_file (hs : Stored o s) (htorn : s.state.tornTruncateTo = none)
    (hr : s.state.recoveredTail = none) (hfile : s.persistBatch batch = some file) :
    file = .header o.inheritedEventCount :: o.committed.map .event
      ++ o.recoveredTail.map .event ++ (s.written.map (·.2)).map .event
      ++ batch.map .event := by
  unfold HandleStorage.persistBatch at hfile
  by_cases hmat : s.state.materialized = true
  · rw [if_pos hmat, Option.some.injEq] at hfile
    rw [← hfile, hs.file hmat, hr, htorn]
    simp
  · have ⟨hempty, hwritten, hcommitted, hrecovered, _⟩ := hs.absent (by simpa using hmat)
    rw [if_neg hmat, HandleStorage.materialize, if_pos hempty, Option.some.injEq] at hfile
    rw [← hfile, hwritten, hcommitted, hrecovered, hs.inherited]
    simp

theorem persistBatch (hs : Stored o s) (htorn : s.state.tornTruncateTo = none)
    (hr : s.state.recoveredTail = none) (origin : BatchOrigin)
    (hbatch : assertContiguous batch s.state.cursor = true)
    (hfile : s.persistBatch batch = some file) :
    Stored o
      { s with
        file := file
        state :=
          { s.state with
            materialized := true
            cursor := s.state.cursor + batch.length }
        written := s.written ++ batch.map (Prod.mk origin) } := by
  have hlines := hs.persistBatch_file htorn hr hfile
  have hmap : (s.written ++ batch.map (Prod.mk origin)).map (·.2)
      = s.written.map (·.2) ++ batch := by simp [Function.comp_def]
  constructor
  · exact hs.inherited
  · nofun
  · intro _
    change file = _
    rw [hlines, hmap, hr, htorn]
    simp
  · intro r hsome
    rw [show s.state.recoveredTail = some r from hsome] at hr
    cases hr
  · intro n hsome
    rw [show s.state.tornTruncateTo = some n from hsome] at htorn
    cases htorn
  · change s.state.cursor + batch.length = _ + (s.written ++ batch.map (Prod.mk origin)).length
    rw [hs.cursor, List.length_append, List.length_map]
    omega
  · change assertContiguous (_ ++ (s.written ++ batch.map (Prod.mk origin)).map (·.2)) 0 = true
    rw [hmap, ← List.append_assoc, assertContiguous_append]
    refine ⟨hs.contiguous, ?_⟩
    rw [hs.cursor] at hbatch
    simpa [Nat.add_assoc] using hbatch

/-- Publishing the header of an unmaterialized session. -/
theorem persistHeader (hs : Stored o s) (hmat : s.state.materialized = false)
    (hfile : s.materialize [] = some file) :
    Stored o { s with file := file, state := { s.state with materialized := true } } := by
  have ⟨hempty, hwritten, hcommitted, hrecovered, htorn, hr⟩ := hs.absent hmat
  rw [HandleStorage.materialize, if_pos hempty, Option.some.injEq] at hfile
  constructor
  · exact hs.inherited
  · nofun
  · intro _
    rw [← hfile, hwritten, hcommitted, hrecovered, hs.inherited, htorn]
    simp
  · exact hs.recovered
  · exact hs.torn
  · exact hs.cursor
  · exact hs.contiguous

end Stored

/-! ## Turns -/

namespace JsonlSessionHandle

variable {h h' : JsonlSessionHandle}

/-- What a turn has established when it awaits a primitive. -/
def Ready (s : HandleStorage) : TurnBody → Awaited → Prop
  | .persist _ _, .acquireWriteLease => True
  | .persist _ batch, .truncateTornTail => assertContiguous batch s.state.cursor = true
  | .persist _ batch, .persistRecovered =>
    assertContiguous batch s.state.cursor = true ∧ s.state.tornTruncateTo = none
  | .persist _ batch, .persistBatch =>
    assertContiguous batch s.state.cursor = true ∧ s.state.tornTruncateTo = none ∧
      s.state.recoveredTail = none
  | .persist _ _, .persistHeader => False
  | .flush _, .acquireWriteLease => s.state.materialized = false
  | .flush _, .persistHeader => s.state.materialized = false
  | .flush _, _ => False

/-- The log state is right, and the running turn may go on. -/
structure WritePath (o : HandleOrigin) (h : JsonlSessionHandle) : Prop where
  stored : Stored o h.storage
  ready : ∀ body primitive, h.running = some (body, primitive) → Ready h.storage body primitive

namespace WritePath

section

variable (hs : Stored o h.storage)
include hs

theorem of_await {body : TurnBody} {primitive : Awaited}
    (hready : Ready h.storage body primitive) : WritePath o (h.await body primitive) where
  stored := hs
  ready := by
    intro b p heq
    cases heq
    exact hready

theorem of_settleTurn (body : TurnBody) (ok : Bool) :
    WritePath o (h.settleTurn body ok) where
  stored := by rw [settleTurn_storage]; exact hs
  ready := by simp

theorem rewriteRecovered {origin : BatchOrigin}
    (htorn : h.storage.state.tornTruncateTo = none)
    (hbatch : assertContiguous batch h.storage.state.cursor = true) :
    WritePath o (h.rewriteRecovered (.persist origin batch)) := by
  unfold JsonlSessionHandle.rewriteRecovered
  split
  · next hr => exact of_await hs ⟨hbatch, htorn, hr⟩
  · next hr =>
      have hs' := hs.clearRecovered htorn hr
      exact of_await (h := h.setStorage _) hs' ⟨hbatch, htorn, rfl⟩
  · exact of_await hs ⟨hbatch, htorn⟩

theorem withLease {body : TurnBody}
    (hready : Ready h.storage body .acquireWriteLease) : WritePath o (h.withLease body) := by
  unfold JsonlSessionHandle.withLease
  split
  · exact of_await hs hready
  · split
    · next hbatch =>
        split
        · exact of_await hs hbatch
        · next htorn => exact rewriteRecovered hs htorn hbatch
    · exact of_settleTurn hs _ _

theorem persistContiguous (origin : BatchOrigin)
    (batch : List SessionEvent) : WritePath o (h.persistContiguous origin batch) := by
  unfold JsonlSessionHandle.persistContiguous
  split
  · exact of_settleTurn hs _ _
  · exact of_await hs trivial

theorem startOp {op : ChainedOp} {aborted : Bool}
    (hstart : h.startOp op aborted = some h') : WritePath o h' := by
  cases op with
  | drain =>
    cases aborted with
    | true => cases hstart
    | false =>
      cases hstart
      exact persistContiguous (h := { h with buffered := [] }) hs .live h.buffered
  | append batch =>
    cases aborted with
    | true =>
      cases hstart
      exact of_settleTurn hs _ _
    | false =>
      cases hstart
      exact persistContiguous hs .append batch
  | flush listener =>
    simp only [JsonlSessionHandle.startOp] at hstart
    split at hstart
    · split at hstart
      · cases hstart
      · cases hstart
        exact of_settleTurn hs _ _
    · split at hstart
      · cases hstart
        exact of_settleTurn hs _ _
      · next hmat =>
          cases hstart
          exact of_await hs (by simpa [Ready] using hmat)

theorem primitiveDone {body : TurnBody} {primitive : Awaited}
    (hready : Ready h.storage body primitive)
    (hdone : h.primitiveDone body primitive = some h') : WritePath o h' := by
  cases primitive with
  | acquireWriteLease =>
    cases hdone
    refine withLease (h := h.setStorage _) (hs.lease true) ?_
    cases body <;> exact hready
  | truncateTornTail =>
    cases body with
    | flush listener => exact hready.elim
    | persist origin batch =>
      have ⟨offset, htorn, heq⟩ := Option.map_eq_some_iff.mp hdone
      subst heq
      exact rewriteRecovered (h := h.setStorage _) (hs.truncate htorn) rfl hready
  | persistRecovered =>
    cases body with
    | flush listener => exact hready.elim
    | persist origin batch =>
      have ⟨recovered, hr, hsome⟩ := Option.bind_eq_some_iff.mp hdone
      have ⟨file, hfile, heq⟩ := Option.map_eq_some_iff.mp hsome
      subst heq
      exact of_await (h := h.setStorage _) (hs.persistRecovered hready.2 hr hfile)
        ⟨hready.1, hready.2, rfl⟩
  | persistBatch =>
    cases body with
    | flush listener => cases hdone
    | persist origin batch =>
      have ⟨file, hfile, heq⟩ := Option.map_eq_some_iff.mp hdone
      have ⟨hbatch, htorn, hr⟩ := hready
      subst heq
      exact of_settleTurn (h := h.setStorage _)
        (hs.persistBatch htorn hr origin hbatch hfile) _ _
  | persistHeader =>
    cases body with
    | persist origin batch => cases hdone
    | flush listener =>
      have ⟨file, hfile, heq⟩ := Option.map_eq_some_iff.mp hdone
      subst heq
      exact of_settleTurn (h := h.setStorage _) (hs.persistHeader hready hfile) _ _

end

/-- What neither the storage nor the running turn sees. -/
theorem of_frame (hw : WritePath o h) (hstorage : h'.storage = h.storage)
    (hrunning : h'.running = h.running) : WritePath o h' where
  stored := by rw [hstorage]; exact hw.stored
  ready := by rw [hstorage, hrunning]; exact hw.ready

/-- Every action keeps the file and the log state in agreement. -/
theorem step {a : HandleAction} (hw : WritePath o h) (hstep : h.step a = some h') :
    WritePath o h' := by
  cases a with
  | enqueueLive event =>
    cases hstep
    exact hw.of_frame (by simp) (by simp)
  | batchTimer =>
    simp only [JsonlSessionHandle.step] at hstep
    split at hstep
    · cases hstep
      exact hw.of_frame (by simp) (by simp)
    · cases hstep
  | drainLive =>
    cases hstep
    exact hw.of_frame (by simp) (by simp)
  | sessionFlush =>
    cases hstep
    exact hw.of_frame (by simp) (by simp)
  | append events =>
    cases hstep
    exact hw.of_frame rfl rfl
  | flush =>
    cases hstep
    exact hw.of_frame rfl rfl
  | startTurn aborted =>
    simp only [JsonlSessionHandle.step] at hstep
    split at hstep
    · next op chain _ _ => exact startOp (h := { h with chain }) hw.stored hstep
    · cases hstep
  | settle ok =>
    simp only [JsonlSessionHandle.step] at hstep
    split at hstep
    · next body primitive hrun =>
        unfold settlePrimitive at hstep
        split at hstep
        · exact primitiveDone hw.stored (hw.ready body primitive hrun) hstep
        · split at hstep
          · cases hstep
          · cases hstep
            exact of_settleTurn hw.stored _ _
    · cases hstep
  | drainResumes =>
    simp only [JsonlSessionHandle.step] at hstep
    split at hstep
    · cases hstep
      exact hw.of_frame (by simp) (by simp)
    · cases hstep
  | drainSettles =>
    simp only [JsonlSessionHandle.step] at hstep
    split at hstep
    · cases hstep
      exact hw.of_frame rfl rfl
    · cases hstep
  | listenerResumes i =>
    simp only [JsonlSessionHandle.step] at hstep
    split at hstep
    · cases hstep
      exact hw.of_frame rfl rfl
    · cases hstep

theorem of_run {as : List HandleAction}
    (hrun : Transition.run JsonlSessionHandle.step o.handle as = some h) : WritePath o h := by
  have hinit : WritePath o o.handle := by
    refine ⟨Stored.of_origin o, ?_⟩
    cases o <;> nofun
  exact Transition.run_induction (fun _ _ _ hw hstep => hw.step hstep) hinit hrun

end WritePath

/-! ## Quiescent points -/

/-- No turn is in flight. -/
def Quiescent (h : JsonlSessionHandle) : Prop := h.running = none

/-- What a quiescent handle has written. -/
structure WellWritten (o : HandleOrigin) (h : JsonlSessionHandle) : Prop where
  /-- No file until the session materializes. -/
  absent : h.storage.state.materialized = false → h.storage.file = []
  /-- One header, then the events, then the torn tail as long as no batch is persisted. -/
  lines : h.storage.state.materialized = true → ∃ tail,
    h.storage.file = .header o.inheritedEventCount :: h.storage.events.map .event ++ tail ∧
      (tail = [] ∨ tail = o.tornTail ∧ h.storage.written = [])
  /-- The events have seq 0, 1, 2, ... -/
  dense : h.storage.events.map SessionEvent.seq = List.range h.storage.events.length
  /-- The recovered tail stands once, between the committed events and every batch. -/
  recovered : h.storage.events = o.committed ∧ h.storage.written = [] ∨
    h.storage.events = o.committed ++ o.recoveredTail ++ h.storage.written.map (·.2)
  /-- The buffered events are the enqueued events not yet persisted. -/
  buffered : h.enqueued = h.storage.writtenBy .live ++ h.buffered

/-- The events of a file, read back from its lines. -/
theorem events_of_file {s : HandleStorage} {n : ℕ} {events : List SessionEvent}
    {tail : List StoredLine} (hfile : s.file = .header n :: events.map .event ++ tail)
    (htail : tail = [] ∨ tail = o.tornTail) : s.events = events := by
  have htorn : tail.filterMap StoredLine.event? = [] := by
    rcases htail with htail | htail
    · rw [htail]
      rfl
    · rw [htail]
      cases o with
      | created n => rfl
      | opened log =>
        simp only [HandleOrigin.tornTail, StoredLog.tornTail]
        split <;> rfl
  have hevents : (events.map StoredLine.event).filterMap StoredLine.event? = events := by
    rw [List.filterMap_map]
    exact List.filterMap_some
  unfold HandleStorage.events
  rw [hfile, List.filterMap_append, htorn, List.append_nil]
  exact hevents

end JsonlSessionHandle

namespace Stored

variable {s : HandleStorage}

theorem events_eq (hs : Stored o s) :
    s.events = o.committed ++ (if s.state.recoveredTail.isSome then [] else o.recoveredTail)
      ++ s.written.map (·.2) := by
  by_cases hmat : s.state.materialized = true
  · have hfile := hs.file hmat
    have htail : ∀ torn : Bool, (if torn then o.tornTail else []) = []
        ∨ (if torn then o.tornTail else []) = o.tornTail := by
      intro torn
      cases torn <;> simp
    refine JsonlSessionHandle.events_of_file (o := o) (n := o.inheritedEventCount) ?_
      (htail s.state.tornTruncateTo.isSome)
    rw [hfile]
    split <;> simp
  · have ⟨hempty, hwritten, hcommitted, hrecovered, _⟩ := hs.absent (by simpa using hmat)
    rw [hwritten, hcommitted, hrecovered, HandleStorage.events, hempty]
    simp

theorem dense (hs : Stored o s) : s.events.map SessionEvent.seq = List.range s.events.length := by
  have hcontiguous := hs.contiguous
  have hpre : assertContiguous s.events 0 = true := by
    rw [hs.events_eq]
    rcases hr : s.state.recoveredTail with _ | r
    · simpa using hcontiguous
    · have ⟨_, hnone⟩ := hs.recovered r hr
      rw [List.append_assoc, assertContiguous_append] at hcontiguous
      simpa [hnone] using hcontiguous.1
  rw [List.range_eq_range']
  exact of_decide_eq_true hpre

end Stored

namespace JsonlSessionHandle

variable {h h' : JsonlSessionHandle}

theorem WritePath.wellWritten (hw : WritePath o h) (hbuf : LiveBuffer h) (hq : Quiescent h) :
    WellWritten o h := by
  have hs := hw.stored
  constructor
  · intro hmat
    exact (hs.absent hmat).1
  · intro hmat
    refine ⟨if h.storage.state.tornTruncateTo.isSome then o.tornTail else [], ?_, ?_⟩
    · rw [hs.events_eq, hs.file hmat]
      split <;> simp
    · rcases htorn : h.storage.state.tornTruncateTo with _ | n
      · exact .inl rfl
      · have ⟨r, hr⟩ := Option.isSome_iff_exists.mp (hs.torn n htorn).2
        exact .inr ⟨rfl, (hs.recovered r hr).2⟩
  · exact hs.dense
  · rcases hr : h.storage.state.recoveredTail with _ | r
    · right
      simpa [hr] using hs.events_eq
    · left
      have hnone := (hs.recovered r hr).2
      refine ⟨?_, hnone⟩
      simpa [hr, hnone] using hs.events_eq
  · have hsplit := hbuf.split
    rw [turn, hq] at hsplit
    simpa [liveBatch] using hsplit

/-- Without an explicit append, what is persisted is what drains persisted. -/
theorem written_eq_live {s : HandleStorage} (happend : s.writtenBy .append = []) :
    s.written.map (·.2) = s.writtenBy .live := by
  have hall : ∀ entry ∈ s.written, entry.1 = .live := by
    intro entry hmem
    by_contra hne
    have happ : entry.1 = .append := by
      cases hentry : entry.1 with
      | live => exact absurd hentry hne
      | append => rfl
    have hin : entry.2 ∈ s.writtenBy .append :=
      List.mem_map.mpr ⟨entry, List.mem_filter.mpr ⟨hmem, by simpa using happ⟩, rfl⟩
    rw [happend] at hin
    cases hin
  unfold HandleStorage.writtenBy
  rw [List.filter_eq_self.mpr (by simpa using hall)]

theorem WritePath.file_of_drained (hw : WritePath o h) (hbuf : LiveBuffer h)
    (hq : Quiescent h) (hempty : h.buffered = []) (henqueued : h.enqueued ≠ [])
    (happend : h.storage.writtenBy .append = []) :
    h.storage.file = .header o.inheritedEventCount
      :: (o.committed ++ o.recoveredTail ++ h.enqueued).map .event := by
  have hs := hw.stored
  have hlive : h.storage.writtenBy .live = h.enqueued := by
    have hsplit := (hw.wellWritten hbuf hq).buffered
    rw [hempty, List.append_nil] at hsplit
    exact hsplit.symm
  have hwritten : h.storage.written.map (·.2) = h.enqueued := by
    rw [← hlive]
    exact written_eq_live happend
  have hsome : h.storage.written ≠ [] := by
    intro hnone
    rw [hnone] at hwritten
    exact henqueued hwritten.symm
  have hr : h.storage.state.recoveredTail = none :=
    Option.eq_none_iff_forall_ne_some.mpr fun r hr => hsome (hs.recovered r hr).2
  have htorn : h.storage.state.tornTruncateTo = none := by
    refine Option.eq_none_iff_forall_ne_some.mpr fun n hn => ?_
    have hpending := (hs.torn n hn).2
    rw [hr] at hpending
    cases hpending
  have hmat : h.storage.state.materialized = true := by
    by_contra hmat
    exact hsome (hs.absent (by simpa using hmat)).2.1
  rw [hs.file hmat, hr, htorn, hwritten]
  simp

/-- Every quiescent point of every run is well written. Two runs that enqueue the same
events and end drained, whatever failed in between, have persisted the same live events in
the same order, and leave the same file unless explicit appends went between. -/
theorem wellWritten_of_run {as : List HandleAction}
    (hrun : Transition.run step o.handle as = some h) (hq : Quiescent h) :
    WellWritten o h ∧
      ∀ as' h', Transition.run step o.handle as' = some h' → Quiescent h' →
        h.buffered = [] → h'.buffered = [] → h'.enqueued = h.enqueued →
        h'.storage.writtenBy .live = h.storage.writtenBy .live ∧
          (h.enqueued ≠ [] → h.storage.writtenBy .append = [] →
            h'.storage.writtenBy .append = [] → h'.storage.file = h.storage.file) := by
  have hw := WritePath.of_run hrun
  have hbuf := LiveBuffer.of_run hrun
  have hwell := hw.wellWritten hbuf hq
  refine ⟨hwell, ?_⟩
  intro as' h' hrun' hq' hempty hempty' henqueued
  have hw' := WritePath.of_run hrun'
  have hbuf' := LiveBuffer.of_run hrun'
  constructor
  · have hsplit := hwell.buffered
    have hsplit' := (hw'.wellWritten hbuf' hq').buffered
    rw [hempty, List.append_nil] at hsplit
    rw [hempty', List.append_nil] at hsplit'
    rw [← hsplit, ← hsplit', henqueued]
  · intro hsome happend happend'
    rw [hw.file_of_drained hbuf hq hempty hsome happend,
      hw'.file_of_drained hbuf' hq' hempty' (henqueued ▸ hsome) happend', henqueued]

/-! ## A torn log -/

/-- An event of a log at a seq. -/
def eventAt (seq : ℕ) : SessionEvent where
  type := .turnStart
  seq := seq
  time := 0
  data := .obj []

/-- A log with one committed event and one recovered from a torn frame. -/
def tornLog : StoredLog where
  inheritedEventCount := 0
  committed := [eventAt 0]
  tornBytes := [0]
  recoveredTail := [eventAt 1]
  contiguous := by decide

/-- The repair succeeds, the batch is rejected and re-buffered, and a second drain persists
it with an event that arrived meanwhile. -/
def retriedRun : List HandleAction :=
  [.enqueueLive (eventAt 2), .batchTimer, .startTurn false, .settle true, .settle true,
    .settle true, .enqueueLive (eventAt 3), .settle false, .drainSettles, .drainLive,
    .startTurn false, .settle true, .settle true, .drainResumes, .drainSettles]

/-- The same events drained at once. -/
def plainRun : List HandleAction :=
  [.enqueueLive (eventAt 2), .enqueueLive (eventAt 3), .batchTimer, .startTurn false,
    .settle true, .settle true, .settle true, .settle true, .drainResumes, .drainSettles]

/-- The retried run ends well written, with the file of the run without a failure. -/
theorem wellWritten_retriedRun :
    ∃ h h', Transition.run step (HandleOrigin.opened tornLog).handle retriedRun = some h ∧
      Transition.run step (HandleOrigin.opened tornLog).handle plainRun = some h' ∧
      WellWritten (.opened tornLog) h ∧ h'.storage.file = h.storage.file ∧
      h.storage.events = [eventAt 0, eventAt 1, eventAt 2, eventAt 3] := by
  have hretried : ∃ h,
      Transition.run step (HandleOrigin.opened tornLog).handle retriedRun = some h ∧
        Quiescent h ∧ h.buffered = [] ∧ h.storage.writtenBy .append = [] ∧
        h.enqueued = [eventAt 2, eventAt 3] ∧
        h.storage.events = [eventAt 0, eventAt 1, eventAt 2, eventAt 3] :=
    ⟨_, rfl, rfl, rfl, rfl, rfl, by decide⟩
  have ⟨h, hrun, hquiet, hbuffered, happend, henqueued, hevents⟩ := hretried
  have ⟨hwell, hruns⟩ := wellWritten_of_run hrun hquiet
  refine ⟨h, _, hrun, rfl, hwell, ?_, hevents⟩
  have hplain := hruns plainRun _ rfl rfl hbuffered rfl (by rw [henqueued]; rfl)
  exact hplain.2 (by rw [henqueued]; exact List.cons_ne_nil _ _) happend rfl

end JsonlSessionHandle

end TianmaCoder
