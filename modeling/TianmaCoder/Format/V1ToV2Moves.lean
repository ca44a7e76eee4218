import Mathlib.Data.List.Infix
import TianmaCoder.Format.V1ToV2References

/-!
# Moves of the v1-to-v2 stage

Every step of the stage is a sequence of a few moves on what has been consumed: an event
arrives, a held event is released, an event is generated beside the next one, the pending
attempt is settled or cited by its message, chunks join it. A move that the order of the
source or the inherited cut does not allow is one the target shows.

## Main definitions

* `View`, `View.move` — where everything consumed so far is, and the moves.
* `Allowed` — the moves that keep the order, the references and the cut.
* `View.WellFormed` — what holds of every view, whatever moves led to it.
-/

namespace TianmaCoder

open Checked

namespace V1ToV2

/-! ## Groups -/

namespace AttemptGroup

variable {group : AttemptGroup}

/-- The first consumed seq. -/
def start (group : AttemptGroup) : ℕ := group.first?.getD 0

/-- A span extends the consumed seqs. -/
theorem recordChunkSpan_chunkSeqs (group : AttemptGroup) (first count : ℕ) (time : ℤ) :
    (group.recordChunkSpan first count time).chunkSeqs
      = group.chunkSeqs ++ List.range' first count := by
  unfold recordChunkSpan chunkSeqs
  rcases List.eq_nil_or_concat group.spans with hnil | ⟨spans, ⟨f, c⟩, hspans⟩
  · simp [hnil]
  · rw [hspans]
    simp only [List.concat_eq_append, List.getLast?_append, List.getLast?_singleton,
      Option.some_or, List.dropLast_concat]
    split
    · next hnext =>
        subst hnext
        simp
    · simp

theorem recordChunkSpan_first? (group : AttemptGroup) (first count : ℕ) (time : ℤ) :
    (group.recordChunkSpan first count time).first? = some (group.first?.getD first) := by
  unfold recordChunkSpan first?
  rcases List.eq_nil_or_concat group.spans with hnil | ⟨spans, ⟨f, c⟩, hspans⟩
  · simp [hnil]
  · rw [hspans]
    simp only [List.concat_eq_append, List.getLast?_append, List.getLast?_singleton,
      Option.some_or, List.dropLast_concat]
    cases spans <;> split <;> simp

@[simp] theorem flushAccumulator_spans (group : AttemptGroup) :
    group.flushAccumulator.spans = group.spans := by
  unfold flushAccumulator
  split <;> rfl

/-- What holds of a group that has consumed chunks before `next`. -/
structure WellFormed (group : AttemptGroup) (next : ℕ) : Prop where
  sorted : group.chunkSeqs.Pairwise (· < ·)
  first : group.first? = group.chunkSeqs.head?
  nonempty : group.chunkSeqs ≠ []
  last : group.chunkSeqs.getLast? = some group.lastChunkSeq
  below : ∀ seq ∈ group.chunkSeqs, seq < next

namespace WellFormed

variable {next : ℕ}

section

variable (h : group.WellFormed next)
include h

theorem first?_eq : group.first? = some group.start := by
  have hfirst := h.first
  cases hseqs : group.chunkSeqs with
  | nil => exact absurd hseqs h.nonempty
  | cons q qs =>
    rw [hseqs] at hfirst
    simp [AttemptGroup.start, hfirst]

/-- A group starts with one of its chunks. -/
theorem start_mem : group.start ∈ group.chunkSeqs := by
  have hfirst := h.first?_eq
  rw [h.first] at hfirst
  exact List.mem_of_head? hfirst

theorem start_le {seq : ℕ} (hseq : seq ∈ group.chunkSeqs) :
    group.start ≤ seq := by
  have hfirst := h.first?_eq
  have hsorted := h.sorted
  rw [h.first] at hfirst
  cases hseqs : group.chunkSeqs with
  | nil => exact absurd hseqs h.nonempty
  | cons q qs =>
    rw [hseqs] at hfirst hsorted hseq
    rw [List.head?_cons, Option.some.injEq] at hfirst
    rcases List.mem_cons.mp hseq with rfl | hmem
    · exact Nat.le_of_eq hfirst.symm
    · have hlt := (List.pairwise_cons.mp hsorted).1 seq hmem
      omega

theorem last_mem : group.lastChunkSeq ∈ group.chunkSeqs :=
  List.mem_of_getLast? h.last

theorem le_last {seq : ℕ} (hseq : seq ∈ group.chunkSeqs) :
    seq ≤ group.lastChunkSeq := by
  obtain ⟨seqs, hseqs⟩ := List.getLast?_eq_some_iff.mp h.last
  have hsorted := h.sorted
  rw [hseqs, List.pairwise_append] at hsorted
  rw [hseqs, List.mem_append, List.mem_singleton] at hseq
  rcases hseq with hmem | rfl
  · exact Nat.le_of_lt (hsorted.2.2 seq hmem _ (List.mem_singleton_self _))
  · exact Nat.le_refl _

theorem start_le_last : group.start ≤ group.lastChunkSeq :=
  h.start_le h.last_mem

theorem last_lt : group.lastChunkSeq < next :=
  h.below _ h.last_mem

end

end WellFormed

end AttemptGroup

/-! ## Moves -/

/-- The position of an event and the references it declares. -/
def signature (event : SessionEvent) : ℕ × List (Option Json) := (event.seq, references event)

/-- Where everything consumed so far is. -/
structure View where
  target : Target
  group : Option AttemptGroup
  /-- The events that arrived and are not emitted. -/
  held : List SessionEvent
  /-- The events that arrived. -/
  arrived : List (ℕ × List (Option Json))
  /-- The next source seq. -/
  next : ℕ

inductive Move where
  /-- An event that is not a chunk joins the held events. -/
  | arrive (event : SessionEvent)
  /-- The held event at a position is emitted. -/
  | release (position : ℕ)
  /-- An event is generated beside the next source event. -/
  | generate (event : SessionEvent)
  /-- The pending attempt is emitted as an attempt. -/
  | settle
  /-- The next event is a message that takes the pending attempt. -/
  | cite (event : SessionEvent)
  /-- The next event is a chunk of the pending attempt, or opens one. -/
  | chunk (event : SessionEvent)
  /-- A packed row of the pending attempt, or one that opens it. -/
  | chunkRun (run : ReleasedAssistantChunkRun)

/-- The pending attempt a chunk joins, or a new one. -/
def joinGroup (pending : Option AttemptGroup) (turn step : Coordinate) :
    Except String AttemptGroup :=
  match pending with
  | none => pure (attemptGroup turn step)
  | some group =>
    if group.continues turn step then pure group else throw "another attempt is pending"

def assertNext (v : View) (seq : ℕ) : Except String Unit :=
  if seq = v.next then pure () else throw "not the next event"

def assertMessage (event : SessionEvent) : Except String Unit :=
  if event.type = .assistantMessage then pure () else throw "not a message"

variable (header : ReleasedV1Header)

def View.move (v : View) : Move → Except String View
  | .arrive event => do
    assertNext v event.seq
    pure { v with
      held := v.held ++ [event]
      arrived := v.arrived ++ [signature event]
      next := v.next + 1 }
  | .release position =>
    match v.held[position]? with
    | none => throw "nothing is held"
    | some event => do
      let target ← v.target.emitSource header event
      pure { v with target, held := v.held.eraseIdx position }
  | .generate event =>
    if references event = [] ∧ event.type ≠ .sessionEndSeed then do
      let target ← v.target.emitGenerated header v.next (.generated v.next) event
      pure { v with target }
    else throw "a generated event declares no references and is no marker"
  | .settle =>
    match v.group with
    | none => throw "no attempt is pending"
    | some group => do
      let target ← v.target.emitGenerated header group.lastChunkSeq (.attempt group.chunkSeqs)
        (attemptEvent group)
      pure { v with target, group := none }
  | .cite event =>
    match v.group, v.held with
    | some group, [] => do
      assertNext v event.seq
      assertMessage event
      assertAttemptCut header group event.seq
      let target ← v.target.emitImage header group.chunkSeqs (messageEvent event group)
      pure { v with
        target := target
        group := none
        arrived := v.arrived ++ [signature { event with sourceEventSeqs := none }]
        next := v.next + 1 }
    | _, _ => throw "no attempt is pending"
  | .chunk event =>
    match v.held with
    | [] => do
      assertNext v event.seq
      let turn ← readMember (some event.data) "turn"
      let step ← readMember (some event.data) "step"
      let group ← joinGroup v.group turn step
      assertAttemptCut header group event.seq
      let group ← group.pushChunk event
      pure { v with group := some group, next := v.next + 1 }
    | _ => throw "events are held"
  | .chunkRun run =>
    match v.held with
    | [] => do
      assertNext v run.firstSeq
      let group ← joinGroup v.group (some (.nat run.turn)) (some (.nat run.step))
      assertAttemptRange header run.firstSeq run.lastSeq
      pure { v with group := some (group.appendRun run), next := v.next + run.eventCount }
    | _ => throw "events are held"

/-- The event declares a reference to itself. -/
def CitesItself (event : SessionEvent) : Prop := some (.nat event.seq) ∈ references event

/-- The pending attempt lies on the same side of the cut as `position`. -/
def Uncrossed (group : Option AttemptGroup) (position : ℕ) : Prop :=
  ∀ g, group = some g → (g.start < header.sourceCut ↔ position < header.sourceCut)

/-- The moves that keep the order, the references and the cut. -/
def Allowed (v : View) : Move → Prop
  | .arrive event => ¬ CitesItself event
  | .release position =>
    position = 0 ∧ ∀ event, v.held[position]? = some event → Uncrossed header v.group event.seq
  | .generate _ => v.held = [] ∧ Uncrossed header v.group v.next
  | .settle => True
  | .cite event => ¬ CitesItself { event with sourceEventSeqs := none }
  | .chunk _ => True
  | .chunkRun run => Uncrossed header v.group run.firstSeq

/-! ## Views -/

/-- What holds of every view. -/
structure View.WellFormed (v : View) : Prop where
  group : ∀ g, v.group = some g → g.WellFormed v.next
  sorted : (v.held.map SessionEvent.seq).Pairwise (· < ·)
  below : ∀ e ∈ v.held, e.seq < v.next
  behind : ∀ g, v.group = some g → ∀ seq ∈ g.chunkSeqs, ∀ e ∈ v.held, seq < e.seq

variable {header} {v v' : View}

theorem assertNext_ok {seq : ℕ} (h : assertNext v seq = .ok ()) : seq = v.next := by
  unfold assertNext at h
  split at h
  · assumption
  · cases h

variable {event : SessionEvent}

theorem assertMessage_ok (h : assertMessage event = .ok ()) : event.type = .assistantMessage := by
  unfold assertMessage at h
  split at h
  · assumption
  · cases h

/-- The range assertion passes when both ends lie on the same side of the cut. -/
theorem assertAttemptRange_ok_iff {first last : ℕ} :
    assertAttemptRange header first last = .ok ()
      ↔ (first < header.sourceCut ↔ last < header.sourceCut) := by
  unfold assertAttemptRange splitsAttempt
  by_cases hf : first < header.sourceCut <;> by_cases hl : last < header.sourceCut <;>
    simp [hf, hl]

variable {turn step : Coordinate}

theorem joinGroup_ok {pending : Option AttemptGroup} {group : AttemptGroup}
    (h : joinGroup pending turn step = .ok group) :
    pending = some group ∧ group.continues turn step = true
      ∨ pending = none ∧ group = attemptGroup turn step := by
  unfold joinGroup at h
  split at h
  · cases h
    exact .inr ⟨rfl, rfl⟩
  · split at h
    · next hcontinues =>
        cases h
        exact .inl ⟨rfl, hcontinues⟩
    · cases h

namespace AttemptGroup

variable {group group' : AttemptGroup}

/-- What adding chunks does to the consumed seqs. -/
structure Extends (group group' : AttemptGroup) (first count : ℕ) : Prop where
  chunkSeqs : group'.chunkSeqs = group.chunkSeqs ++ List.range' first count
  first? : group'.first? = some (group.first?.getD first)
  last : group'.lastChunkSeq = first + count - 1

/-- Only the spans and the last seq matter. -/
theorem extends_of_spans {first count : ℕ} (base : AttemptGroup) (time : ℤ)
    (hbase : base.spans = group.spans)
    (hspans : group'.spans = (base.recordChunkSpan first count time).spans)
    (hlast : group'.lastChunkSeq = first + count - 1) : Extends group group' first count := by
  refine ⟨?_, ?_, hlast⟩
  · have hseqs := recordChunkSpan_chunkSeqs base first count time
    simp only [chunkSeqs] at hseqs ⊢
    rw [hspans, hseqs, hbase]
  · have hfirst := recordChunkSpan_first? base first count time
    simp only [AttemptGroup.first?] at hfirst ⊢
    rw [hspans, hfirst, hbase]

theorem pushChunk_extends (h : group.pushChunk event = .ok group') :
    Extends group group' event.seq 1 := by
  unfold pushChunk at h
  split at h
  · cases h
  · next chunk hchunk =>
      obtain ⟨accumulator, _, h⟩ := bind_ok h
      cases h
      exact extends_of_spans { group with accumulator } event.time rfl rfl rfl

theorem appendRun_extends (group : AttemptGroup) (run : ReleasedAssistantChunkRun) :
    Extends group (group.appendRun run) run.firstSeq run.eventCount := by
  have hspans := flushAccumulator_spans group
  let stream := appendStreamRecord group.flushAccumulator.stream run.stream run.lastTime
  exact extends_of_spans { group.flushAccumulator with stream } run.lastTime hspans rfl rfl

@[simp] theorem attemptGroup_first? (turn step : Coordinate) :
    (attemptGroup turn step).first? = none := rfl

theorem Extends.wellFormed {next count : ℕ} (h : Extends group group' next count)
    (hcount : 0 < count)
    (hgroup : group.WellFormed next ∨ group.chunkSeqs = [] ∧ group.first? = none) :
    group'.WellFormed (next + count) := by
  have hlast : (List.range' next count).getLast? = some (next + count - 1) := by
    rw [List.getLast?_range']
    simp only [Nat.ne_of_gt hcount, if_false]
  have hrange : List.range' next count ≠ [] := by
    simp only [ne_eq, List.range'_eq_nil_iff]
    omega
  constructor
  · rw [h.chunkSeqs, List.pairwise_append]
    refine ⟨?_, List.pairwise_lt_range', ?_⟩
    · rcases hgroup with hgroup | ⟨hnil, _⟩
      · exact hgroup.sorted
      · simp [hnil]
    · intro a ha b hb
      rcases hgroup with hgroup | ⟨hnil, _⟩
      · have hbelow := hgroup.below a ha
        have hge := (List.mem_range'_1.mp hb).1
        omega
      · simp [hnil] at ha
  · rw [h.first?, h.chunkSeqs]
    rcases hgroup with hgroup | ⟨hnil, hfirst⟩
    · have hhead := hgroup.first
      cases hseqs : group.chunkSeqs with
      | nil => exact absurd hseqs hgroup.nonempty
      | cons q qs =>
        rw [hseqs] at hhead
        simp [hhead]
    · rw [hnil, hfirst]
      simp [List.head?_range', Nat.ne_of_gt hcount]
  · rw [h.chunkSeqs]
    simp [hrange]
  · rw [h.chunkSeqs, h.last, List.getLast?_append, hlast]
    simp
  · intro seq hseq
    rw [h.chunkSeqs, List.mem_append] at hseq
    rcases hseq with hseq | hseq
    · rcases hgroup with hgroup | ⟨hnil, _⟩
      · have hbelow := hgroup.below seq hseq
        omega
      · simp [hnil] at hseq
    · exact (List.mem_range'_1.mp hseq).2

end AttemptGroup

theorem joinGroup_wellFormed {pending : Option AttemptGroup} {group : AttemptGroup} {next : ℕ}
    (h : joinGroup pending turn step = .ok group)
    (hpending : ∀ g, pending = some g → g.WellFormed next) :
    group.WellFormed next ∨ group.chunkSeqs = [] ∧ group.first? = none := by
  rcases joinGroup_ok h with ⟨hsome, _⟩ | ⟨_, hnew⟩
  · exact .inl (hpending group hsome)
  · rw [hnew]
    exact .inr ⟨rfl, rfl⟩

theorem View.WellFormed.initial : View.WellFormed
    { target := (initial header).target, group := none, held := [], arrived := [], next := 0 } where
  group := nofun
  sorted := .nil
  below := by simp
  behind := nofun

namespace View.WellFormed

variable {g : AttemptGroup}

section

variable (hv : v.WellFormed)
include hv

theorem start_lt (hg : v.group = some g) : g.start < v.next :=
  (hv.group g hg).below _ (hv.group g hg).start_mem

theorem start_lt_held (hg : v.group = some g) (hevent : event ∈ v.held) :
    g.start < event.seq :=
  hv.behind g hg _ (hv.group g hg).start_mem event hevent

theorem uncrossed_of_cut {base : AttemptGroup} {position : ℕ}
    (hjoin : joinGroup v.group turn step = .ok base)
    (hcut : assertAttemptCut header base position = .ok ()) :
    Uncrossed header v.group position := by
  intro g hg
  have hbase : base = g := by
    rcases joinGroup_ok hjoin with ⟨hsome, _⟩ | ⟨hnone, _⟩
    · rw [hg, Option.some.injEq] at hsome
      exact hsome.symm
    · rw [hg] at hnone
      cases hnone
  rw [hbase, assertAttemptCut, (hv.group g hg).first?_eq] at hcut
  exact assertAttemptRange_ok_iff.mp hcut

theorem mono_group (hg : v.group = some g) {n : ℕ} (hn : v.next ≤ n) :
    g.WellFormed n := by
  have hold := hv.group g hg
  exact ⟨hold.sorted, hold.first, hold.nonempty, hold.last,
    fun seq hseq => Nat.lt_of_lt_of_le (hold.below seq hseq) hn⟩

theorem arrive (hseq : event.seq = v.next) :
    View.WellFormed { v with
      held := v.held ++ [event]
      arrived := v.arrived ++ [signature event]
      next := v.next + 1 } where
  group := fun g hg => hv.mono_group hg (Nat.le_succ _)
  sorted := by
    rw [List.map_append, List.pairwise_append]
    refine ⟨hv.sorted, by simp, ?_⟩
    intro a ha b hb
    obtain ⟨e, he, rfl⟩ := List.mem_map.mp ha
    have hlt := hv.below e he
    simp only [List.map_cons, List.map_nil, List.mem_singleton] at hb
    omega
  below := by
    intro e he
    rcases List.mem_append.mp he with he | he
    · exact Nat.lt_succ_of_lt (hv.below e he)
    · rw [List.mem_singleton.mp he, hseq]
      exact Nat.lt_succ_self _
  behind := by
    intro g hg seq hq e he
    rcases List.mem_append.mp he with he | he
    · exact hv.behind g hg seq hq e he
    · rw [List.mem_singleton.mp he, hseq]
      exact (hv.group g hg).below seq hq

theorem release (position : ℕ) (target : Target) :
    View.WellFormed { v with target, held := v.held.eraseIdx position } where
  group := hv.group
  sorted := hv.sorted.sublist ((List.eraseIdx_sublist v.held position).map _)
  below := fun e he => hv.below e (List.mem_of_mem_eraseIdx he)
  behind := fun g hg seq hq e he => hv.behind g hg seq hq e (List.mem_of_mem_eraseIdx he)

/-- Chunks join while nothing is held. -/
theorem join (hheld : v.held = []) {n : ℕ} (hg : g.WellFormed n) :
    View.WellFormed { v with group := some g, next := n } where
  group := by
    intro g' hg'
    cases hg'
    exact hg
  sorted := hv.sorted
  below := by simp [hheld]
  behind := by simp [hheld]

/-- Every move keeps a view well formed. -/
theorem move {m : Move} (hmove : v.move header m = .ok v') : v'.WellFormed := by
  cases m with
  | arrive event =>
    obtain ⟨_, hnext, h⟩ := bind_ok hmove
    cases h
    exact hv.arrive (assertNext_ok hnext)
  | release position =>
    simp only [View.move] at hmove
    split at hmove
    · cases hmove
    · obtain ⟨target, _, h⟩ := bind_ok hmove
      cases h
      exact hv.release position target
  | generate event =>
    simp only [View.move] at hmove
    split at hmove
    · obtain ⟨target, _, h⟩ := bind_ok hmove
      cases h
      exact ⟨hv.group, hv.sorted, hv.below, hv.behind⟩
    · cases hmove
  | settle =>
    simp only [View.move] at hmove
    split at hmove
    · cases hmove
    · obtain ⟨target, _, h⟩ := bind_ok hmove
      cases h
      exact ⟨nofun, hv.sorted, hv.below, nofun⟩
  | cite event =>
    simp only [View.move] at hmove
    split at hmove
    · next group hgroup hheld =>
        obtain ⟨_, hnext, h⟩ := bind_ok hmove
        obtain ⟨_, _, h⟩ := bind_ok h
        obtain ⟨_, _, h⟩ := bind_ok h
        obtain ⟨target, _, h⟩ := bind_ok h
        cases h
        refine ⟨nofun, hv.sorted, ?_, nofun⟩
        intro e he
        simp [hheld] at he
    · cases hmove
  | chunk event =>
    simp only [View.move] at hmove
    split at hmove
    · next hheld =>
        obtain ⟨_, hnext, h⟩ := bind_ok hmove
        obtain ⟨turn, _, h⟩ := bind_ok h
        obtain ⟨step, _, h⟩ := bind_ok h
        obtain ⟨group, hjoin, h⟩ := bind_ok h
        obtain ⟨_, _, h⟩ := bind_ok h
        obtain ⟨group', hpush, h⟩ := bind_ok h
        cases h
        have hextends := AttemptGroup.pushChunk_extends hpush
        rw [assertNext_ok hnext] at hextends
        exact hv.join hheld
          (hextends.wellFormed Nat.one_pos (joinGroup_wellFormed hjoin hv.group))
    · cases hmove
  | chunkRun run =>
    simp only [View.move] at hmove
    split at hmove
    · next hheld =>
        obtain ⟨_, hnext, h⟩ := bind_ok hmove
        obtain ⟨group, hjoin, h⟩ := bind_ok h
        obtain ⟨_, _, h⟩ := bind_ok h
        cases h
        have hextends := AttemptGroup.appendRun_extends group run
        rw [assertNext_ok hnext] at hextends
        have hcount : 0 < run.eventCount := List.length_pos_of_ne_nil run.members_ne
        exact hv.join hheld
          (hextends.wellFormed hcount (joinGroup_wellFormed hjoin hv.group))
    · cases hmove

theorem run {ms : List Move}
    (hrun : ms.foldlM (View.move header) v = .ok v') : v'.WellFormed :=
  foldlM_induction (motive := fun _ v => View.WellFormed v) hrun hv
    fun _ _ _ _ _ hold hmove => hold.move hmove

end

end View.WellFormed

end V1ToV2

end TianmaCoder
