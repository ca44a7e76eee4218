import TianmaCoder.Persistence.LiveBuffer

/-!
# The flush barrier

A `session/flush` listener drains the live buffer and then flushes. When it fulfils, the
events enqueued before its `drainLive` call are persisted, provided the call did not join a
drain that had looked at the buffer for the last time and had not yet been cleared.

## Main definitions

* `BarrierComplete` — the law of the barrier.
* `JoinsOpenDrain` — the condition on the states in which `session/flush` is handled.

## Main results

* `barrierComplete_of_joinsOpenDrain` — the law along every run under the condition.
* `barrierComplete_fails` — a run that breaks it.
-/

namespace TianmaCoder

/-- The drain a listener joined has fulfilled. -/
def ListenerPhase.released : ListenerPhase → Bool
  | .drainLive => false
  | .drained => true
  | .flush => true
  | .fulfilled => true
  | .rejected => false

namespace JsonlSessionHandle

variable {h h' : JsonlSessionHandle}

/-- Every fulfilled listener's events are persisted, in order. -/
def BarrierComplete (h : JsonlSessionHandle) : Prop :=
  ∀ l ∈ h.listeners, l.phase = .fulfilled →
    h.enqueued.take l.owed <+: h.storage.writtenBy .live

/-- `session/flush` does not join a drain that settled before events were buffered. -/
def JoinsOpenDrain (h : JsonlSessionHandle) (a : HandleAction) : Prop :=
  a = .sessionFlush → h.draining = some (.settled true) → h.buffered = []

/-- As many events are persisted as the listener is owed. -/
def Covered (h : JsonlSessionHandle) (l : FlushListener) : Prop :=
  l.owed ≤ (h.storage.writtenBy .live).length

/-- With `body` as the turn under way: whoever has passed the drain is covered. -/
structure Barrier (h : JsonlSessionHandle) (body : Option TurnBody) : Prop where
  owed_le : ∀ (i : ℕ) (l : FlushListener), h.listeners[i]? = some l →
    l.owed ≤ h.enqueued.length
  joined : h.draining = some (.settled true) →
    ∀ (i : ℕ) (l : FlushListener), h.listeners[i]? = some l → l.phase = .drainLive →
      Covered h l
  released : ∀ (i : ℕ) (l : FlushListener), h.listeners[i]? = some l → l.phase.released →
    Covered h l
  flushing : ∀ (i : ℕ) (l : FlushListener),
    .flush (some i) ∈ h.chain ∨ body = some (.flush (some i)) →
    h.listeners[i]? = some l → Covered h l
  known : ∀ i : ℕ, .flush (some i) ∈ h.chain ∨ body = some (.flush (some i)) →
    i < h.listeners.length

namespace Barrier

variable {body body' : Option TurnBody}

/-- The barrier survives whatever persists and enqueues more, settles no drain as fulfilled,
chains no new flush, and releases only covered listeners. -/
theorem of_update (hb : Barrier h body) (henqueued : h.enqueued.length ≤ h'.enqueued.length)
    (hwritten : (h.storage.writtenBy .live).length ≤ (h'.storage.writtenBy .live).length)
    (hlength : h.listeners.length = h'.listeners.length)
    (hlisteners : ∀ (i : ℕ) (l' : FlushListener), h'.listeners[i]? = some l' →
      ∃ l, h.listeners[i]? = some l ∧ l'.owed = l.owed ∧
      (l'.phase = .drainLive → l.phase = .drainLive) ∧
      (l'.phase.released → l.phase.released ∨ Covered h l))
    (hdraining : h'.draining = some (.settled true) → h.draining = some (.settled true))
    (hops : ∀ i, .flush (some i) ∈ h'.chain ∨ body' = some (.flush (some i)) →
      .flush (some i) ∈ h.chain ∨ body = some (.flush (some i))) : Barrier h' body' := by
  have hcovered : ∀ l l' : FlushListener, l'.owed = l.owed → Covered h l → Covered h' l' := by
    intro l l' howed hl
    unfold Covered at hl ⊢
    omega
  constructor
  · intro i l' hl'
    have ⟨l, hl, howed, _⟩ := hlisteners i l' hl'
    have hle := hb.owed_le i l hl
    omega
  · intro hsettled i l' hl' hphase
    have ⟨l, hl, howed, hjoined, _⟩ := hlisteners i l' hl'
    exact hcovered l l' howed (hb.joined (hdraining hsettled) i l hl (hjoined hphase))
  · intro i l' hl' hphase
    have ⟨l, hl, howed, _, hreleased⟩ := hlisteners i l' hl'
    rcases hreleased hphase with hphase | hcov
    · exact hcovered l l' howed (hb.released i l hl hphase)
    · exact hcovered l l' howed hcov
  · intro i l' hop hl'
    have ⟨l, hl, howed, _⟩ := hlisteners i l' hl'
    exact hcovered l l' howed (hb.flushing i l (hops i hop) hl)
  · intro i hop
    have hlt := hb.known i (hops i hop)
    omega

/-- The same, for a step that leaves the listeners alone. -/
theorem of_listeners_eq (hb : Barrier h body) (hlisteners : h'.listeners = h.listeners)
    (henqueued : h.enqueued.length ≤ h'.enqueued.length)
    (hwritten : (h.storage.writtenBy .live).length ≤ (h'.storage.writtenBy .live).length)
    (hdraining : h'.draining = some (.settled true) → h.draining = some (.settled true))
    (hops : ∀ i, .flush (some i) ∈ h'.chain ∨ body' = some (.flush (some i)) →
      .flush (some i) ∈ h.chain ∨ body = some (.flush (some i))) : Barrier h' body' := by
  refine hb.of_update henqueued hwritten (by rw [hlisteners]) ?_ hdraining hops
  intro i l' hl'
  rw [hlisteners] at hl'
  exact ⟨l', hl', rfl, id, .inl⟩

/-- A turn that settles keeps the barrier: a flush releases its own listener only. -/
theorem settleTurn {t : TurnBody} (ok : Bool) (hb : Barrier h (some t)) :
    Barrier (h.settleTurn t ok) none := by
  have hchain : ∀ i, .flush (some i) ∈ (h.settleTurn t ok).chain
      ∨ none = some (TurnBody.flush (some i)) →
      .flush (some i) ∈ h.chain ∨ some t = some (.flush (some i)) := by
    intro i hop
    rw [settleTurn_chain] at hop
    exact .inl (hop.resolve_right (by simp))
  have hwritten : (h.storage.writtenBy .live).length
      ≤ ((h.settleTurn t ok).storage.writtenBy .live).length :=
    Nat.le_of_eq (by rw [settleTurn_storage])
  have henqueued : h.enqueued.length ≤ (h.settleTurn t ok).enqueued.length :=
    Nat.le_of_eq (by rw [settleTurn_enqueued])
  rcases t with ⟨_ | _, batch⟩ | listener
  · refine hb.of_listeners_eq ?_ henqueued hwritten ?_ hchain
    · cases ok <;> rfl
    · cases ok <;> simp [JsonlSessionHandle.settleTurn]
  · exact hb.of_listeners_eq rfl henqueued hwritten id hchain
  · refine hb.of_update henqueued hwritten ?_ ?_ ?_ hchain
    · cases listener <;> simp [JsonlSessionHandle.settleTurn, settleListener]
    · intro i l' hl'
      cases listener with
      | none => exact ⟨l', hl', rfl, id, .inl⟩
      | some j =>
        simp only [JsonlSessionHandle.settleTurn, settleListener, List.getElem?_modify] at hl'
        obtain ⟨l, hl, heq⟩ := Option.map_eq_some_iff.mp hl'
        refine ⟨l, hl, ?_⟩
        split at heq
        · next hij =>
            subst hij heq
            refine ⟨rfl, ?_, fun _ => .inr (hb.flushing j l (.inr rfl) hl)⟩
            cases ok <;> simp
        · subst heq
          exact ⟨rfl, id, .inl⟩
    · simp [JsonlSessionHandle.settleTurn]

theorem setStorage {storage : HandleStorage} (hb : Barrier h body)
    (hwritten : (h.storage.writtenBy .live).length ≤ (storage.writtenBy .live).length) :
    Barrier (h.setStorage storage) body :=
  hb.of_listeners_eq rfl (Nat.le_refl _) hwritten id (fun _ hop => hop)

/-- Every way a turn advances keeps the barrier. -/
theorem turnMove {t : TurnBody} (hb : Barrier h (some t)) (hmove : TurnMove h t h') :
    Barrier h' h'.turn := by
  cases hmove with
  | awaits storage primitive hwritten =>
    have hb' : Barrier (h.setStorage storage) (some t) :=
      hb.setStorage (Nat.le_of_eq (by unfold HandleStorage.writtenBy; rw [hwritten]))
    exact hb'.of_listeners_eq rfl (Nat.le_refl _) (Nat.le_refl _) id (fun _ hop => hop)
  | rejects storage hwritten =>
    have hb' : Barrier (h.setStorage storage) (some t) :=
      hb.setStorage (Nat.le_of_eq (by unfold HandleStorage.writtenBy; rw [hwritten]))
    simpa [turn] using hb'.settleTurn false
  | flushed storage listener hbody hwritten =>
    have hb' : Barrier (h.setStorage storage) (some t) :=
      hb.setStorage (Nat.le_of_eq (by unfold HandleStorage.writtenBy; rw [hwritten]))
    simpa [turn] using hb'.settleTurn true
  | persisted storage origin batch hbody hwritten =>
    have hby := HandleStorage.writtenBy_of_append hwritten .live
    have hb' : Barrier (h.setStorage storage) (some t) := hb.setStorage (by rw [hby]; simp)
    simpa [turn] using hb'.settleTurn true

/-- Starting an operation hands its flush to the turn. -/
theorem capture {op : ChainedOp} {chain : List ChainedOp} (hb : Barrier h h.turn)
    (hchain : h.chain = op :: chain) :
    Barrier ({ h with chain }.capture op) (some (h.bodyOf op)) := by
  have hops : ∀ i, .flush (some i) ∈ chain ∨ some (h.bodyOf op) = some (.flush (some i)) →
      .flush (some i) ∈ h.chain ∨ h.turn = some (.flush (some i)) := by
    intro i hop
    rw [hchain, List.mem_cons]
    rcases hop with hop | hop
    · exact .inl (.inr hop)
    · cases op <;> simp_all [bodyOf]
  cases op with
  | drain => exact hb.of_listeners_eq rfl (Nat.le_refl _) (Nat.le_refl _) id hops
  | append batch => exact hb.of_listeners_eq rfl (Nat.le_refl _) (Nat.le_refl _) id hops
  | flush listener => exact hb.of_listeners_eq rfl (Nat.le_refl _) (Nat.le_refl _) id hops

theorem covered_of_empty (hb : Barrier h body) (hbuf : LiveBuffer h)
    (hnone : awaitedTurns h.draining = 0) (hempty : h.buffered = []) (i : ℕ)
    (l : FlushListener) (hl : h.listeners[i]? = some l) : Covered h l := by
  have hle := hb.owed_le i l hl
  rw [← hbuf.writtenBy_eq_enqueued hnone hempty] at hle
  exact hle

theorem drainLoop (hb : Barrier h h.turn) (hbuf : LiveBuffer h)
    (hnone : awaitedTurns h.draining = 0) : Barrier h.drainLoop h.drainLoop.turn := by
  unfold JsonlSessionHandle.drainLoop
  split
  · next hempty =>
      exact ⟨hb.owed_le, fun _ i l hl _ => hb.covered_of_empty hbuf hnone hempty i l hl,
        hb.released, hb.flushing, hb.known⟩
  · refine hb.of_listeners_eq rfl (Nat.le_refl _) (Nat.le_refl _) (by simp) ?_
    intro i hop
    simpa [turn] using hop

theorem drainLive (hb : Barrier h h.turn) (hbuf : LiveBuffer h) :
    Barrier h.drainLive h.drainLive.turn := by
  unfold JsonlSessionHandle.drainLive
  split
  · exact hb
  · next hnone =>
      let h₀ : JsonlSessionHandle := { h with batchTimer := false, drainPaused := false }
      have hb₀ : Barrier h₀ h₀.turn := 
        ⟨hb.owed_le, hb.joined, hb.released, hb.flushing, hb.known⟩
      exact hb₀.drainLoop ⟨hbuf.split, hbuf.single⟩ (by simp [h₀, hnone, awaitedTurns])

theorem drainLive_settled (hopen : h.draining = some (.settled true) → h.buffered = [])
    (hsettled : h.drainLive.draining = some (.settled true)) :
    awaitedTurns h.draining = 0 ∧ h.buffered = [] := by
  unfold JsonlSessionHandle.drainLive at hsettled
  split at hsettled
  · rw [hsettled]
    exact ⟨rfl, hopen hsettled⟩
  · next hnone =>
      rw [hnone]
      refine ⟨rfl, ?_⟩
      unfold JsonlSessionHandle.drainBuffered JsonlSessionHandle.drainLoop at hsettled
      split at hsettled
      · next hempty => exact hempty
      · cases hsettled

/-- A new listener is covered if the drain it joins has settled as fulfilled. -/
theorem sessionFlush (hb : Barrier h h.turn) (hbuf : LiveBuffer h)
    (hopen : h.draining = some (.settled true) → h.buffered = []) :
    Barrier
      { h.drainLive with
        listeners := h.listeners ++ [{ phase := .drainLive, owed := h.enqueued.length }] }
      h.drainLive.turn := by
  have hb' := hb.drainLive hbuf
  have hlisteners : h.drainLive.listeners = h.listeners := drainLive_listeners
  have henqueued : h.drainLive.enqueued = h.enqueued := drainLive_enqueued
  have hstorage : h.drainLive.storage = h.storage := drainLive_storage
  have hnew : h.drainLive.draining = some (.settled true) →
      h.enqueued.length ≤ (h.storage.writtenBy .live).length := by
    intro hsettled
    have ⟨hnone, hempty⟩ := drainLive_settled hopen hsettled
    exact Nat.le_of_eq (congrArg _ (hbuf.writtenBy_eq_enqueued hnone hempty).symm)
  -- the listeners before it are those of the drain; the new one is the last
  have hcases : ∀ (i : ℕ) (l : FlushListener),
      (h.listeners ++ [{ phase := .drainLive, owed := h.enqueued.length }])[i]? = some l →
      h.drainLive.listeners[i]? = some l
        ∨ i = h.listeners.length ∧ l = { phase := .drainLive, owed := h.enqueued.length } := by
    intro i l hl
    rw [hlisteners]
    by_cases hi : i < h.listeners.length
    · rw [List.getElem?_append_left hi] at hl
      exact .inl hl
    · rw [List.getElem?_append_right (by omega)] at hl
      have hzero : i - h.listeners.length = 0 := by
        have hlt := (List.getElem?_eq_some_iff.mp hl).1
        simp only [List.length_singleton] at hlt
        omega
      rw [hzero] at hl
      exact .inr ⟨by omega, by simpa using hl.symm⟩
  constructor
  · intro i l hl
    rcases hcases i l hl with hl | ⟨_, hl⟩
    · exact hb'.owed_le i l hl
    · rw [hl]
      exact Nat.le_of_eq (congrArg List.length henqueued.symm)
  · intro hsettled i l hl hphase
    rcases hcases i l hl with hl | ⟨_, hl⟩
    · exact hb'.joined hsettled i l hl hphase
    · rw [hl]
      have hle := hnew hsettled
      rw [← hstorage] at hle
      exact hle
  · intro i l hl hphase
    rcases hcases i l hl with hl | ⟨_, hl⟩
    · exact hb'.released i l hl hphase
    · rw [hl] at hphase
      cases hphase
  · intro i l hop hl
    rcases hcases i l hl with hl | ⟨hi, _⟩
    · exact hb'.flushing i l hop hl
    · have hlt := hb'.known i hop
      rw [hlisteners] at hlt
      omega
  · intro i hop
    have hlt := hb'.known i hop
    rw [hlisteners] at hlt
    simp only [List.length_append]
    omega

theorem drainSettles (hb : Barrier h h.turn) {ok : Bool} (hdone : h.draining = some (.settled ok)) :
    Barrier (h.drainSettles ok) (h.drainSettles ok).turn := by
  refine hb.of_update (Nat.le_refl _) (Nat.le_refl _)
    (by simp [JsonlSessionHandle.drainSettles]) ?_ (by simp [JsonlSessionHandle.drainSettles])
    (fun _ hop => hop)
  intro i l' hl'
  simp only [JsonlSessionHandle.drainSettles, List.getElem?_map] at hl'
  have ⟨l, hl, heq⟩ := Option.map_eq_some_iff.mp hl'
  refine ⟨l, hl, ?_⟩
  split at heq
  · next hphase =>
      subst heq
      refine ⟨rfl, fun _ => hphase, ?_⟩
      cases ok with
      | true => exact fun _ => .inr (hb.joined hdone i l hl hphase)
      | false => simp [ListenerPhase.released]
  · subst heq
    exact ⟨rfl, id, .inl⟩

theorem listenerResumes (hb : Barrier h h.turn) {i : ℕ}
    (hdrained : (h.listeners[i]?).any (·.phase = .drained)) :
    Barrier (h.listenerResumes i) (h.listenerResumes i).turn := by
  obtain ⟨l₀, hl₀, hphase₀⟩ : ∃ l₀, h.listeners[i]? = some l₀ ∧ l₀.phase = .drained := by
    obtain ⟨l₀, hl₀, hphase₀⟩ := (Option.any_eq_true _ _).mp hdrained
    exact ⟨l₀, hl₀, of_decide_eq_true hphase₀⟩
  have hcov₀ : Covered h l₀ := hb.released i l₀ hl₀ (by rw [hphase₀]; rfl)
  -- only the phase of the resumed listener changes
  have hcases : ∀ (j : ℕ) (l' : FlushListener), (h.listenerResumes i).listeners[j]? = some l' →
      ∃ l, h.listeners[j]? = some l ∧ l'.owed = l.owed ∧ (l' = l ∨ j = i ∧ l'.phase = .flush) := by
    intro j l' hl'
    simp only [JsonlSessionHandle.listenerResumes, List.getElem?_modify] at hl'
    obtain ⟨l, hl, heq⟩ := Option.map_eq_some_iff.mp hl'
    refine ⟨l, hl, ?_⟩
    split at heq
    · next hij =>
        subst heq
        exact ⟨rfl, .inr ⟨hij.symm, rfl⟩⟩
    · subst heq
      exact ⟨rfl, .inl rfl⟩
  have hcovered : ∀ l l' : FlushListener, l'.owed = l.owed → Covered h l →
      Covered (h.listenerResumes i) l' := by
    intro l l' howed hl
    unfold Covered at hl ⊢
    rw [howed]
    exact hl
  have hsame : ∀ l, h.listeners[i]? = some l → l = l₀ := by
    intro l hl
    rw [hl₀] at hl
    exact (Option.some.inj hl).symm
  constructor
  · intro j l' hl'
    obtain ⟨l, hl, howed, _⟩ := hcases j l' hl'
    rw [howed]
    exact hb.owed_le j l hl
  · intro hsettled j l' hl' hphase
    obtain ⟨l, hl, howed, hor⟩ := hcases j l' hl'
    rcases hor with heq | ⟨_, hflush⟩
    · subst heq
      exact hb.joined hsettled j l' hl hphase
    · rw [hflush] at hphase
      cases hphase
  · intro j l' hl' hphase
    obtain ⟨l, hl, howed, hor⟩ := hcases j l' hl'
    rcases hor with heq | ⟨hji, _⟩
    · subst heq
      exact hb.released j l' hl hphase
    · subst hji
      exact hcovered l l' howed (hsame l hl ▸ hcov₀)
  · intro j l' hop hl'
    obtain ⟨l, hl, howed, _⟩ := hcases j l' hl'
    by_cases hji : j = i
    · subst hji
      exact hcovered l l' howed (hsame l hl ▸ hcov₀)
    · refine hcovered l l' howed (hb.flushing j l ?_ hl)
      simpa [JsonlSessionHandle.listenerResumes, turn, hji] using hop
  · intro j hop
    simp only [JsonlSessionHandle.listenerResumes, List.length_modify]
    by_cases hji : j = i
    · subst hji
      exact (List.getElem?_eq_some_iff.mp hl₀).1
    · refine hb.known j ?_
      simpa [JsonlSessionHandle.listenerResumes, turn, hji] using hop

/-- Every action taken under the condition keeps the barrier. -/
theorem step {a : HandleAction} (hb : Barrier h h.turn) (hbuf : LiveBuffer h)
    (hopen : JoinsOpenDrain h a) (hstep : h.step a = some h') : Barrier h' h'.turn := by
  cases a with
  | enqueueLive event =>
    cases hstep
    refine hb.of_listeners_eq ?_ ?_ ?_ ?_ ?_
    · simp
    · simp
    · simp
    · simp
    · simp [turn]
  | batchTimer =>
    simp only [JsonlSessionHandle.step] at hstep
    split at hstep
    · cases hstep
      let h₀ : JsonlSessionHandle := { h with batchTimer := false }
      have hb₀ : Barrier h₀ h₀.turn := 
      ⟨hb.owed_le, hb.joined, hb.released, hb.flushing, hb.known⟩
      exact hb₀.drainLive ⟨hbuf.split, hbuf.single⟩
    · cases hstep
  | drainLive =>
    cases hstep
    exact hb.drainLive hbuf
  | sessionFlush =>
    cases hstep
    exact hb.sessionFlush hbuf (hopen rfl)
  | append events =>
    cases hstep
    refine hb.of_listeners_eq rfl (Nat.le_refl _) (Nat.le_refl _) id ?_
    intro i hop
    simpa [turn] using hop
  | flush =>
    cases hstep
    refine hb.of_listeners_eq rfl (Nat.le_refl _) (Nat.le_refl _) id ?_
    intro i hop
    simpa [turn] using hop
  | startTurn aborted =>
    simp only [JsonlSessionHandle.step] at hstep
    split at hstep
    · next op chain _ hchain =>
        exact (hb.capture hchain).turnMove (startOp_move hstep)
    · cases hstep
  | settle ok =>
    simp only [JsonlSessionHandle.step] at hstep
    split at hstep
    · next t primitive hrun =>
        have hb' : Barrier h (some t) := by simpa [turn, hrun] using hb
        exact hb'.turnMove (settlePrimitive_move hstep)
    · cases hstep
  | drainResumes =>
    simp only [JsonlSessionHandle.step] at hstep
    split at hstep
    · next hdone =>
        cases hstep
        exact hb.drainLoop hbuf (by rw [hdone]; rfl)
    · cases hstep
  | drainSettles =>
    simp only [JsonlSessionHandle.step] at hstep
    split at hstep
    · next ok hdone =>
        cases hstep
        exact hb.drainSettles hdone
    · cases hstep
  | listenerResumes i =>
    simp only [JsonlSessionHandle.step] at hstep
    split at hstep
    · next hdrained =>
        cases hstep
        exact hb.listenerResumes hdrained
    · cases hstep

end Barrier

theorem barrier_of_run {o : HandleOrigin} {as : List HandleAction}
    (hopen : Transition.Guarded step JoinsOpenDrain o.handle as)
    (hrun : Transition.run step o.handle as = some h) : Barrier h h.turn ∧ LiveBuffer h := by
  have hinit : Barrier o.handle o.handle.turn ∧ LiveBuffer o.handle := by
    refine ⟨?_, .of_origin o⟩
    cases o <;> constructor <;> simp [HandleOrigin.handle, create, openWrite, idle, turn]
  refine Transition.run_induction_of_guarded
    (motive := fun h => Barrier h h.turn ∧ LiveBuffer h) ?_ hinit hopen hrun
  intro s a s' hs hok hstep
  exact ⟨hs.1.step hs.2 hok hstep, hs.2.step hstep⟩

/-- In every run in which no `session/flush` joins a drain that settled before events were
buffered, a listener that fulfils has all its events persisted. -/
theorem barrierComplete_of_joinsOpenDrain {o : HandleOrigin} {as : List HandleAction}
    (hopen : Transition.Guarded step JoinsOpenDrain o.handle as)
    (hrun : Transition.run step o.handle as = some h) : BarrierComplete h := by
  have ⟨hb, hbuf⟩ := barrier_of_run hopen hrun
  intro l hmem hphase
  have ⟨i, hl⟩ := List.mem_iff_getElem?.mp hmem
  exact hbuf.writtenBy_eq_take (hb.released i l hl (by rw [hphase]; rfl))

/-! ## Runs of an opened handle -/

/-- A stored log without events. -/
def emptyLog : StoredLog where
  inheritedEventCount := 0
  committed := []
  tornBytes := []
  recoveredTail := []
  contiguous := by decide

/-- The first live event of that log. -/
def firstEvent : SessionEvent where
  type := .turnStart
  seq := 0
  time := 0
  data := .obj []

/-- An event is enqueued, and a flush drains it. -/
def drainedRun : List HandleAction :=
  [.enqueueLive firstEvent, .sessionFlush, .startTurn false, .settle true, .settle true,
    .drainResumes, .drainSettles, .listenerResumes 0, .startTurn false]

/-- The flush of a drained event fulfils with the event persisted. -/
theorem barrierComplete_drainedRun :
    ∃ h, Transition.run step (HandleOrigin.opened emptyLog).handle drainedRun = some h ∧
      (h.listeners.map (·.phase)) = [.fulfilled] ∧ BarrierComplete h := by
  have hopen : Transition.Guarded step JoinsOpenDrain (HandleOrigin.opened emptyLog).handle
      drainedRun := by
    refine ⟨nofun, fun t ht => ⟨?_, fun t' _ => ?_⟩⟩
    · intro _ hsettled
      cases ht
      cases hsettled
    · simp [Transition.Guarded, JoinsOpenDrain]
  exact ⟨_, rfl, rfl, barrierComplete_of_joinsOpenDrain hopen rfl⟩

/-- A flush of an empty buffer, an event, and a second flush that joins the first drain
before the continuation that clears it has run. -/
def joinedRun : List HandleAction :=
  [.sessionFlush, .enqueueLive firstEvent, .sessionFlush, .drainSettles, .listenerResumes 0,
    .listenerResumes 1, .startTurn false, .startTurn false]

/-- The second flush of `joinedRun` fulfils although its event is only buffered. -/
theorem barrierComplete_fails :
    ∃ h, Transition.run step (HandleOrigin.opened emptyLog).handle joinedRun = some h ∧
      (h.listeners.map (·.phase)) = [.fulfilled, .fulfilled] ∧ ¬ BarrierComplete h := by
  refine ⟨_, rfl, rfl, ?_⟩
  intro hcomplete
  have hpre := hcomplete ⟨.fulfilled, 1⟩ (List.mem_iff_getElem?.mpr ⟨1, rfl⟩) rfl
  exact absurd hpre.length_le (by decide)

end JsonlSessionHandle

end TianmaCoder
