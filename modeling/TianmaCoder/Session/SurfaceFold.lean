import TianmaCoder.Lib.Checked
import TianmaCoder.Session.Surface

/-!
# Rules for the surface fold

What one accepted transition can do, and how the replay of a longer log continues the replay
of a shorter one. Planning an event reads the log below the event's own position only
(`planSurfaceEvent_window`), because surface nodes, header citations and projection inputs
all lie there; so the replay of `log ++ [e]` is the replay of `log` and one more transition
(`foldSurfaceState_snoc`).

## Main results

* `planSurfaceEvent_cases` — everything an accepted plan establishes.
* `foldSurfaceState_snoc`, `foldSurface_snoc` — the recursion of the replay over a growing log.
* `nodes_lt_length` — every surface node is a position of the log.
-/

namespace TianmaCoder

open Checked

/-! ## Metadata -/

variable {event : SessionEvent}

/-- Accepted metadata has the operation of its marker, and with one its citations are in order. -/
theorem validateSurfaceMetadata_ok {op : Option SurfaceOp}
    (h : validateSurfaceMetadata event = .ok op) :
    surfaceOpOf event = .ok op ∧
      (op.isSome = true → assertSourceEventReferences event [] = .ok ()) := by
  unfold validateSurfaceMetadata at h
  obtain ⟨op', hop, h⟩ := bind_ok h
  have hrest : ∀ x : Except String Unit, (x >>= fun _ => pure op') = .ok op →
      op' = op ∧ x = .ok () := by
    intro x hx
    obtain ⟨⟨⟩, hunit, hx⟩ := bind_ok hx
    exact ⟨by simpa using hx, hunit⟩
  have hsame : op' = op ∧ (op.isSome = true → assertSourceEventReferences event [] = .ok ()) := by
    cases op' with
    | none =>
      have hnone : none = op := by simpa using h
      rw [← hnone]
      exact ⟨rfl, fun hsome => by cases hsome⟩
    | some op' =>
      cases op' with
      | append =>
        obtain ⟨heq, hsources⟩ := hrest _ (by simpa using h)
        exact ⟨heq, fun _ => hsources⟩
      | replace startSeq endSeq =>
        by_cases hearly : event.seq ≤ startSeq ∨ event.seq ≤ endSeq
        · simp [hearly] at h
        · obtain ⟨heq, hsources⟩ := hrest _ (by simpa [hearly] using h)
          exact ⟨heq, fun _ => hsources⟩
  rw [hop, hsame.1]
  exact ⟨rfl, hsame.2⟩

theorem surfaceOpOf_of_validateSurfaceMetadata {op : Option SurfaceOp}
    (h : validateSurfaceMetadata event = .ok op) : surfaceOpOf event = .ok op :=
  (validateSurfaceMetadata_ok h).1

/-! ## Plans -/

theorem windowEvent_zero (events : List SessionEvent) (seq : ℕ) :
    windowEvent events 0 seq = events[seq]? := by
  simp [windowEvent]

variable {events events' : List SessionEvent} {n : ℕ}

theorem windowEvent_congr {seq : ℕ} (h : events.take n = events'.take n) (hseq : seq < n) :
    windowEvent events 0 seq = windowEvent events' 0 seq := by
  have hget := congrArg (fun l => l[seq]?) h
  simpa [windowEvent_zero, List.getElem?_take_of_lt hseq] using hget

variable {nodes : List ℕ}

section

variable {startSeq endSeq : ℕ} {range : ReplacementRange}
  (h : replacementRange nodes startSeq endSeq = .ok range)
include h

theorem replacementRange_ok :
    nodes.idxOf? startSeq = some range.startIdx ∧ nodes.idxOf? endSeq = some range.endIdx
      ∧ range.startIdx ≤ range.endIdx
      ∧ range.shadowedSeqs = (nodes.take (range.endIdx + 1)).drop range.startIdx := by
  unfold replacementRange at h
  cases hs : nodes.idxOf? startSeq with
  | none => simp [hs] at h
  | some startIdx =>
    cases he : nodes.idxOf? endSeq with
    | none => simp [hs, he] at h
    | some endIdx =>
      by_cases hlt : endIdx < startIdx
      · simp [hs, he, hlt] at h
      · simp only [hs, he, hlt, if_false, pure_eq] at h
        cases h
        exact ⟨rfl, rfl, Nat.le_of_not_lt hlt, rfl⟩

theorem mem_of_mem_shadowedSeqs {seq : ℕ}
    (hmem : seq ∈ range.shadowedSeqs) : seq ∈ nodes := by
  rw [(replacementRange_ok h).2.2.2] at hmem
  exact List.mem_of_mem_take (List.mem_of_mem_drop hmem)

end

/-- The transition of an accepted event that no message projection interprets. -/
inductive SurfaceMove (state : SurfaceFoldState) (event : SessionEvent)
    (events : List SessionEvent) (baseSeq : ℕ) : Option SurfaceOp → Option SurfacePlan → Prop
  | logOnly : SurfaceMove state event events baseSeq none none
  | append :
      SurfaceMove state event events baseSeq (some .append) (some (.append event.seq))
  | replace {startSeq endSeq : ℕ} {range : ReplacementRange}
      (hrange : replacementRange state.nodes startSeq endSeq = .ok range)
      (hsource : assertSourceEventReferences event range.shadowedSeqs = .ok ())
      (hrewrite : assertToolResultRewrite event range.shadowedSeqs events baseSeq = .ok ())
      (hhead : assertSystemHeadRewrite event state.nodes range.startIdx range.shadowedSeqs
        events baseSeq = .ok ()) :
      SurfaceMove state event events baseSeq (some (.replace startSeq endSeq))
        (some (.replace
          { seq := event.seq, start := startSeq, end_ := endSeq,
            shadowedSeqs := range.shadowedSeqs }
          range.startIdx range.endIdx))

/-- The context a projection of `event` reads. -/
def projectionContext (state : SurfaceFoldState) (events : List SessionEvent) (baseSeq : ℕ) :
    SessionMessageProjectionContext where
  nodes := state.nodes
  events := events
  baseSeq := baseSeq
  messages := state.projectedMessages

/-- Everything an accepted plan establishes about its event. -/
theorem planSurfaceEvent_cases {state : SurfaceFoldState} {expectedSeq baseSeq : ℕ}
    {projections : List SessionMessageProjection} {plan : Option SurfacePlan}
    (h : planSurfaceEvent state event expectedSeq events baseSeq projections = .ok plan) :
    event.seq = expectedSeq ∧ assertDeveloperHeader event events baseSeq = .ok () ∧
    ∃ op, validateSurfaceMetadata event = .ok op ∧
      ((∃ projection messages,
          projections.find? (fun item => item.type == event.type) = some projection
          ∧ projection.project event (projectionContext state events baseSeq) = .ok messages
          ∧ plan = some (.project projection.toProjectionRef messages))
        ∨ (projections.find? (fun item => item.type == event.type) = none
          ∧ event.type.needsMessageProjection = false
          ∧ SurfaceMove state event events baseSeq op plan)) := by
  unfold planSurfaceEvent at h
  by_cases hseq : event.seq = expectedSeq
  · simp only [hseq, ne_eq, not_true_eq_false, if_false, pure_eq] at h
    obtain ⟨op, hop, h⟩ := bind_ok h
    obtain ⟨⟨⟩, hdev, h⟩ := bind_ok h
    refine ⟨hseq, hdev, op, hop, ?_⟩
    cases hfind : projections.find? (fun item => item.type == event.type) with
    | some projection =>
      simp only [hfind] at h
      obtain ⟨messages, hproject, h⟩ := bind_ok h
      cases h
      exact .inl ⟨projection, messages, rfl, hproject, rfl⟩
    | none =>
      simp only [hfind] at h
      refine .inr ⟨rfl, ?_⟩
      cases hneed : event.type.needsMessageProjection with
      | true => simp [hneed] at h
      | false =>
        refine ⟨rfl, ?_⟩
        simp only [hneed, Bool.false_eq_true, if_false] at h
        match op with
        | none =>
          cases h
          exact .logOnly
        | some .append =>
          cases h
          rw [← hseq]
          exact .append
        | some (.replace startSeq endSeq) =>
          obtain ⟨range, hrange, h⟩ := bind_ok h
          obtain ⟨⟨⟩, hsource, h⟩ := bind_ok h
          obtain ⟨⟨⟩, hrewrite, h⟩ := bind_ok h
          obtain ⟨⟨⟩, hhead, h⟩ := bind_ok h
          cases h
          rw [← hseq]
          exact .replace hrange hsource hrewrite hhead
  · simp [hseq] at h

/-! ## Planning reads earlier entries only -/

/-- The committed entries of two windows agree below the position `n` of a candidate. -/
private theorem assertDeveloperHeader_congr (h : events.take event.seq = events'.take event.seq) :
    assertDeveloperHeader event events 0 = assertDeveloperHeader event events' 0 := by
  unfold assertDeveloperHeader
  cases hheader : event.field "headerSeq" with
  | none => rfl
  | some value =>
    simp only [bind, Except.bind]
    by_cases hlt : (Json.count? (some value)).getD event.seq < event.seq
    · rw [windowEvent_congr h hlt]
    · -- A citation of the candidate's own position or later is refused whatever it finds.
      have hle : event.seq ≤ (Json.count? (some value)).getD event.seq := Nat.le_of_not_lt hlt
      cases windowEvent events 0 ((Json.count? (some value)).getD event.seq) <;>
        cases windowEvent events' 0 ((Json.count? (some value)).getD event.seq) <;>
        simp only [hle, true_or, if_true, throw_eq]

private theorem assertToolResultRewrite_congr (h : events.take n = events'.take n)
    {shadowedSeqs : List ℕ} (hlt : ∀ seq ∈ shadowedSeqs, seq < n) :
    assertToolResultRewrite event shadowedSeqs events 0
      = assertToolResultRewrite event shadowedSeqs events' 0 := by
  unfold assertToolResultRewrite
  match shadowedSeqs with
  | [] => rfl
  | [originalSeq] => simp only [windowEvent_congr h (hlt originalSeq (by simp))]
  | _ :: _ :: _ => rfl

private theorem assertSystemHeadRewrite_congr (h : events.take n = events'.take n)
    (hlt : ∀ seq ∈ nodes, seq < n) (startIdx : ℕ) (shadowedSeqs : List ℕ) :
    assertSystemHeadRewrite event nodes startIdx shadowedSeqs events 0
      = assertSystemHeadRewrite event nodes startIdx shadowedSeqs events' 0 := by
  unfold assertSystemHeadRewrite
  cases nodes with
  | nil => rfl
  | cons head nodes =>
    simp only [List.head?_cons, Option.bind_some, windowEvent_congr h (hlt head (by simp))]

/-- Planning depends on the log below the candidate's position only. -/
theorem planSurfaceEvent_window {state : SurfaceFoldState} (event : SessionEvent)
    (projections : List SessionMessageProjection) (h : events.take n = events'.take n)
    (hlt : ∀ seq ∈ state.nodes, seq < n) :
    planSurfaceEvent state event n events 0 projections
      = planSurfaceEvent state event n events' 0 projections := by
  unfold planSurfaceEvent
  by_cases hseq : event.seq = n
  · subst n
    rw [assertDeveloperHeader_congr h]
    cases hop : validateSurfaceMetadata event with
    | error message => rfl
    | ok op =>
      cases hfind : projections.find? (fun item => item.type == event.type) with
      | some projection =>
        have hproject : projection.project event (projectionContext state events 0)
            = projection.project event (projectionContext state events' 0) := by
          rw [← projection.project_before event (projectionContext state events 0) hlt,
            ← projection.project_before event (projectionContext state events' 0) hlt]
          simp only [SessionMessageProjectionContext.before, projectionContext, Nat.sub_zero, h]
        simp only [projectionContext] at hproject
        simp only [hproject]
      | none =>
        match op with
        | none => rfl
        | some .append => rfl
        | some (.replace startSeq endSeq) =>
          cases hrange : replacementRange state.nodes startSeq endSeq with
          | error message => simp [hrange]
          | ok range =>
            simp only [ok_bind, hrange]
            rw [assertToolResultRewrite_congr h fun seq hmem =>
                hlt seq (mem_of_mem_shadowedSeqs hrange hmem),
              assertSystemHeadRewrite_congr h hlt]
  · simp [hseq]

/-! ## The replay over a growing log -/

variable {projections : List SessionMessageProjection}

theorem mem_spliceNode {startIdx endIdx seq x : ℕ} (h : x ∈ spliceNode nodes startIdx endIdx seq) :
    x ∈ nodes ∨ x = seq := by
  rcases List.mem_append.mp h with h | h
  · exact .inl (List.mem_of_mem_take h)
  · rcases List.mem_cons.mp h with h | h
    · exact .inr h
    · exact .inl (List.mem_of_mem_drop h)

variable {acc acc' : SurfaceFoldState × List SurfaceFoldReplacement}

theorem foldSurfaceStep_ok_iff :
    foldSurfaceStep events projections acc (event, n) = .ok acc' ↔
      ∃ plan, planSurfaceEvent acc.1 event n events 0 projections = .ok plan
        ∧ acc' = ((applySurfacePlan acc.1 plan).1,
            acc.2 ++ (applySurfacePlan acc.1 plan).2.toList) := by
  simp only [foldSurfaceStep, applySurfaceEvent]
  cases planSurfaceEvent acc.1 event n events 0 projections with
  | error message => simp
  | ok plan => simp [eq_comm]

/-- An accepted transition at `n` adds no node but `n`. -/
theorem mem_nodes_of_foldSurfaceStep
    (h : foldSurfaceStep events projections acc (event, n) = .ok acc') {seq : ℕ}
    (hmem : seq ∈ acc'.1.nodes) : seq ∈ acc.1.nodes ∨ seq = n := by
  obtain ⟨plan, hplan, rfl⟩ := foldSurfaceStep_ok_iff.mp h
  obtain ⟨hseq, -, op, -, hcase⟩ := planSurfaceEvent_cases hplan
  rcases hcase with ⟨projection, messages, -, -, rfl⟩ | ⟨-, -, hmove⟩
  · exact .inl hmem
  · cases hmove with
    | logOnly => exact .inl hmem
    | append =>
      rw [← hseq]
      simpa [applySurfacePlan] using hmem
    | replace =>
      rw [← hseq]
      exact mem_spliceNode hmem

/-- Every node of a loop state lies below the number of entries read. -/
private def Below (read : List (SessionEvent × ℕ))
    (acc : SurfaceFoldState × List SurfaceFoldReplacement) : Prop :=
  ∀ seq ∈ acc.1.nodes, seq < read.length

variable {log : List SessionEvent}

section

variable {pre : List (SessionEvent × ℕ)} {entry : SessionEvent × ℕ}
  (hpre : pre ++ [entry] <+: log.zipIdx)
include hpre

private theorem position_eq : entry.2 = pre.length ∧ pre.length < log.length := by
  have hlen := hpre.length_le
  have hget := hpre.getElem (i := pre.length) (by simp)
  simp only [List.getElem_concat_length, List.getElem_zipIdx, Nat.zero_add] at hget
  simp only [List.length_append, List.length_singleton, List.length_zipIdx] at hlen
  exact ⟨by rw [hget], hlen⟩

private theorem below_step (hbelow : Below pre acc)
    (h : foldSurfaceStep events projections acc entry = .ok acc') :
    Below (pre ++ [entry]) acc' := by
  intro seq hmem
  rw [List.length_append, List.length_singleton]
  rcases mem_nodes_of_foldSurfaceStep h hmem with hold | hnew
  · exact Nat.lt_succ_of_lt (hbelow seq hold)
  · rw [hnew, (position_eq hpre).1]
    exact Nat.lt_succ_self _

end

private theorem foldSurfaceStep_window (h : events.take n = events'.take n)
    (hlt : ∀ seq ∈ acc.1.nodes, seq < n) :
    foldSurfaceStep events projections acc (event, n)
      = foldSurfaceStep events' projections acc (event, n) := by
  simp only [foldSurfaceStep, applySurfaceEvent,
    planSurfaceEvent_window event projections h hlt]

/-- The replay of a log that grew by one event. -/
theorem foldSurfaceState_snoc (log : List SessionEvent) (event : SessionEvent) :
    foldSurfaceState (log ++ [event]) projections
      = foldSurfaceState log projections >>= fun acc =>
          foldSurfaceStep log projections acc (event, log.length) := by
  have hshared : log.zipIdx.foldlM (foldSurfaceStep (log ++ [event]) projections)
        (createFoldState, [])
      = log.zipIdx.foldlM (foldSurfaceStep log projections) (createFoldState, []) := by
    refine foldlM_congr (motive := Below) (fun seq hmem => by cases hmem) ?_ ?_
    · intro pre entry acc hpre hbelow
      obtain ⟨hentry, hlt⟩ := position_eq hpre
      obtain ⟨event, n⟩ := entry
      subst hentry
      exact foldSurfaceStep_window (List.take_append_of_le_length (Nat.le_of_lt hlt)) hbelow
    · intro pre entry acc acc' hpre hbelow hstep
      exact below_step hpre hbelow hstep
  rw [foldSurfaceState, List.zipIdx_append, List.zipIdx_singleton, foldlM_snoc, hshared,
    Nat.zero_add]
  cases hrun : foldSurfaceState log projections with
  | error message =>
    rw [foldSurfaceState] at hrun
    rw [hrun]
    rfl
  | ok acc =>
    rw [foldSurfaceState] at hrun
    rw [hrun, ok_bind, ok_bind]
    have hbelow : Below log.zipIdx acc :=
      foldlM_induction hrun (fun seq hmem => by cases hmem)
        fun pre entry s₁ s₂ hpre => below_step hpre
    rw [Below, List.length_zipIdx] at hbelow
    exact foldSurfaceStep_window (List.take_append_of_le_length (Nat.le_refl _)) hbelow

/-- The invariant rule of the replay. -/
theorem foldSurfaceState_induction
    {motive : List SessionEvent → SurfaceFoldState × List SurfaceFoldReplacement → Prop}
    (hinit : motive [] (createFoldState, [])) (hstep : ∀ log event acc plan,
      foldSurfaceState log projections = .ok acc → motive log acc →
      planSurfaceEvent acc.1 event log.length log 0 projections = .ok plan →
      motive (log ++ [event]) ((applySurfacePlan acc.1 plan).1,
        acc.2 ++ (applySurfacePlan acc.1 plan).2.toList))
    (h : foldSurfaceState log projections = .ok acc) : motive log acc := by
  induction log using List.reverseRecOn generalizing acc with
  | nil =>
    cases h
    exact hinit
  | append_singleton log event ih =>
    rw [foldSurfaceState_snoc, bind_ok_iff] at h
    obtain ⟨acc₁, hlog, hlast⟩ := h
    obtain ⟨plan, hplan, rfl⟩ := foldSurfaceStep_ok_iff.mp hlast
    exact hstep log event acc₁ plan hlog (ih hlog) hplan

theorem nodes_lt_length (h : foldSurfaceState log projections = .ok acc) :
    ∀ seq ∈ acc.1.nodes, seq < log.length := by
  refine foldSurfaceState_induction (motive := fun log acc => ∀ seq ∈ acc.1.nodes, seq < log.length)
    (fun seq hmem => by cases hmem) ?_ h
  intro log event acc plan _ ih hplan seq hmem
  rw [List.length_append, List.length_singleton]
  rcases mem_nodes_of_foldSurfaceStep (foldSurfaceStep_ok_iff.mpr ⟨plan, hplan, rfl⟩) hmem
    with hold | rfl
  · exact Nat.lt_succ_of_lt (ih seq hold)
  · exact Nat.lt_succ_self _

theorem foldSurfaceState_snoc_ok_iff :
    foldSurfaceState (log ++ [event]) projections = .ok acc' ↔
      ∃ acc plan, foldSurfaceState log projections = .ok acc
        ∧ planSurfaceEvent acc.1 event log.length log 0 projections = .ok plan
        ∧ acc' = ((applySurfacePlan acc.1 plan).1,
            acc.2 ++ (applySurfacePlan acc.1 plan).2.toList) := by
  simp only [foldSurfaceState_snoc, bind_ok_iff, foldSurfaceStep_ok_iff]
  constructor
  · rintro ⟨acc, hlog, plan, hplan, hacc⟩
    exact ⟨acc, plan, hlog, hplan, hacc⟩
  · rintro ⟨acc, plan, hlog, hplan, hacc⟩
    exact ⟨acc, hlog, plan, hplan, hacc⟩

theorem foldSurfaceState_of_append {before rest : List SessionEvent}
    (h : foldSurfaceState (before ++ rest) projections = .ok acc) :
    ∃ acc', foldSurfaceState before projections = .ok acc' := by
  induction rest using List.reverseRecOn generalizing acc with
  | nil =>
    rw [List.append_nil] at h
    exact ⟨acc, h⟩
  | append_singleton rest event ih =>
    rw [← List.append_assoc] at h
    obtain ⟨acc₁, -, hacc₁, -⟩ := foldSurfaceState_snoc_ok_iff.mp h
    exact ih hacc₁

theorem nodes_nodup (h : foldSurfaceState log projections = .ok acc) : acc.1.nodes.Nodup := by
  refine foldSurfaceState_induction (motive := fun _ acc => acc.1.nodes.Nodup) List.nodup_nil ?_ h
  intro log event acc plan hlog ih hplan
  obtain ⟨hseq, -, op, -, hcase⟩ := planSurfaceEvent_cases hplan
  have hfresh : event.seq ∉ acc.1.nodes := by
    intro hmem
    have hlt := nodes_lt_length hlog event.seq hmem
    omega
  rcases hcase with ⟨projection, messages, -, -, rfl⟩ | ⟨-, -, hmove⟩
  · exact ih
  · cases hmove with
    | logOnly => exact ih
    | append => exact List.Nodup.append ih (List.nodup_singleton _) (by simpa using hfresh)
    | @replace startSeq endSeq range hrange =>
      have hle : range.startIdx ≤ range.endIdx + 1 := by
        have := (replacementRange_ok hrange).2.2.1
        omega
      have hparts : (acc.1.nodes.take range.startIdx
          ++ acc.1.nodes.drop (range.endIdx + 1)).Nodup :=
        (List.Sublist.append_left (List.drop_sublist_drop_left _ hle) _).nodup
          (by rw [List.take_append_drop]; exact ih)
      simp only [applySurfacePlan, spliceNode]
      refine List.nodup_middle.mpr (List.nodup_cons.mpr ⟨?_, hparts⟩)
      intro hmem
      rcases List.mem_append.mp hmem with hmem | hmem
      · exact hfresh (List.mem_of_mem_take hmem)
      · exact hfresh (List.mem_of_mem_drop hmem)

theorem seq_of_foldSurfaceState (h : foldSurfaceState log projections = .ok acc) (i : ℕ)
    (hi : i < log.length) : log[i].seq = i := by
  revert i
  refine foldSurfaceState_induction (motive := fun log _ => ∀ i (hi : i < log.length), log[i].seq = i)
    (fun i hi => by cases hi) ?_ h
  intro log event acc plan _ ih hplan i hi
  by_cases hlt : i < log.length
  · rw [List.getElem_append_left hlt]
    exact ih i hlt
  · have hlast : i = log.length := by
      simp only [List.length_append, List.length_singleton] at hi
      omega
    subst hlast
    rw [List.getElem_concat_length rfl]
    exact (planSurfaceEvent_cases hplan).1

end TianmaCoder
