import TianmaCoder.Session.Replay

/-!
# What one event does to the surface

An accepted event appends itself, replaces a range of nodes that it cites, or leaves the nodes
alone. Where only the declared types are interpreted by message projections, its own type and
marker decide which.

## Main definitions

* `SessionEvent.isReplacement`, `SessionEvent.cites` — the marker and the citations.
* `NodesStep` — the three transitions.

## Main results

* `nodesStep_of_plan` — every accepted event takes one of them.
-/

namespace TianmaCoder

open Checked

namespace SessionEvent

/-- `isReplacementSurfaceEvent`: the event replaced a surface range. -/
def isReplacement (e : SessionEvent) : Bool :=
  e.type.isSurfaceEligible && e.surfaceOp.isSome && e.surfaceOp != some (.str "append")

/-- `event.sourceEventSeqs?.includes(seq)` -/
def cites (e : SessionEvent) (seq : ℕ) : Bool :=
  decide (Json.nat seq ∈ (Json.arr? e.sourceEventSeqs).getD [])

end SessionEvent

/-! ## Citations -/

theorem items_of_counts {items : List Json} {sources : List ℕ}
    (h : List.Forall₂ (fun item seq => Json.count? (some item) = some seq) items sources) :
    items = sources.map Json.nat := by
  induction h with
  | nil => rfl
  | cons hitem _ ih =>
    rw [List.map_cons, ih, Option.some.inj (Json.eq_nat_of_count? hitem)]

variable {event : SessionEvent}

/-- The cited seqs of an accepted event are earlier ones, and no other counts as cited. -/
theorem cites_iff_of_sources {sources : List ℕ} (h : sourceEventSeqsOf event = .ok sources) :
    (∀ seq, event.cites seq = true ↔ seq ∈ sources) ∧ ∀ seq ∈ sources, seq < event.seq := by
  unfold sourceEventSeqsOf at h
  cases hraw : event.sourceEventSeqs with
  | none =>
    rw [hraw] at h
    cases h
    refine ⟨fun seq => ?_, fun seq hseq => by cases hseq⟩
    simp [SessionEvent.cites, hraw, Json.arr?]
  | some raw =>
    simp only [hraw] at h
    split at h
    · cases h
    · cases raw with
      | arr items =>
        simp only [throw_eq] at h
        split at h
        · cases h
        · simp only [pure_eq, error_bind] at h
          obtain ⟨sources', hmap, h⟩ := bind_ok h
          rw [guard_ok_iff] at h
          replace h := h.2
          split at h
          · cases h
          · rename_i hearlier
            cases h
            have hitems : items = sources.map Json.nat := by
              refine items_of_counts ((forall₂_of_mapM hmap).imp ?_)
              intro item seq hitem
              cases hcount : Json.count? (some item) with
              | none => simp [hcount] at hitem
              | some count =>
                simp only [hcount, Except.ok.injEq] at hitem
                rw [hitem]
            constructor
            · intro seq
              rw [SessionEvent.cites, hraw, decide_eq_true_iff]
              simp [Json.arr?, hitems]
            · intro seq hseq
              have hnot := List.find?_eq_none.mp hearlier seq hseq
              simpa using hnot
      | _ => cases h

variable {seq : ℕ}

theorem lt_of_cites {op : SurfaceOp} (hop : validateSurfaceMetadata event = .ok (some op))
    (hcites : event.cites seq = true) : seq < event.seq := by
  have hreferences := (validateSurfaceMetadata_ok hop).2 rfl
  unfold assertSourceEventReferences at hreferences
  obtain ⟨sources, hsources, -⟩ := bind_ok hreferences
  obtain ⟨hiff, hlt⟩ := cites_iff_of_sources hsources
  exact hlt seq ((hiff seq).mp hcites)

theorem cites_of_shadowed {shadowedSeqs : List ℕ}
    (h : assertSourceEventReferences event shadowedSeqs = .ok ()) (hseq : seq ∈ shadowedSeqs) :
    event.cites seq = true := by
  unfold assertSourceEventReferences at h
  obtain ⟨sources, hsources, h⟩ := bind_ok h
  rw [(cites_iff_of_sources hsources).1]
  have hall : ∀ seq ∈ shadowedSeqs, seq ∈ sources := by simpa using h
  exact hall seq hseq

/-! ## Transitions -/

/-- How an event changes the surface nodes. -/
inductive NodesStep (event : SessionEvent) (nodes : List ℕ) : List ℕ → Prop
  | still (htype : event.type.isSurfaceEligible = false) : NodesStep event nodes nodes
  | append (htype : event.type.isSurfaceEligible = true) (hmarker : event.isAppend = true) :
      NodesStep event nodes (nodes ++ [event.seq])
  | replace {startIdx endIdx : ℕ} (hreplace : event.isReplacement = true)
      (hle : startIdx ≤ endIdx)
      (hcites : ∀ seq ∈ (nodes.take (endIdx + 1)).drop startIdx, event.cites seq = true) :
      NodesStep event nodes (spliceNode nodes startIdx endIdx event.seq)

/-- The marker of an accepted event is there exactly when its type can join the surface. -/
theorem surfaceOpOf_cases {op : Option SurfaceOp} (h : surfaceOpOf event = .ok op) :
    (event.type.isSurfaceEligible = false ∧ op = none) ∨
    (event.type.isSurfaceEligible = true ∧ event.isAppend = true ∧ op = some .append) ∨
    ∃ startSeq endSeq, event.isReplacement = true ∧ op = some (.replace startSeq endSeq) := by
  unfold surfaceOpOf at h
  cases htype : event.type.isSurfaceEligible with
  | false =>
    left
    refine ⟨rfl, ?_⟩
    simp only [htype, Bool.not_false, if_true, throw_eq] at h
    split at h
    · cases h
      rfl
    · rw [guard_ok_iff, guard_ok_iff] at h
      cases h.2.2
      rfl
  | true =>
    right
    simp only [htype, Bool.not_true, Bool.false_eq_true, if_false, throw_eq] at h
    split at h
    · cases h
    · rename_i hop
      cases h
      left
      exact ⟨rfl, by simp [SessionEvent.isAppend, hop], rfl⟩
    · rename_i members hop
      split at h
      · rename_i marker hmarker
        cases h
        right
        have hreplace : event.isReplacement = true := by
          simp [SessionEvent.isReplacement, htype, hop]
        unfold replaceOp? at hmarker
        by_cases hshape : members.length = 3 ∧ (Json.obj members).get? "op" = some (.str "replace")
        · simp only [if_pos hshape] at hmarker
          split at hmarker
          · cases hmarker
            exact ⟨_, _, hreplace, rfl⟩
          · cases hmarker
        · simp only [if_neg hshape] at hmarker
          cases hmarker
      · cases h
    · cases h

variable {projections : List SessionMessageProjection}

variable {log : List SessionEvent}

theorem nodesStep_of_plan (hdeclared : DeclaredProjections projections) {state : SurfaceFoldState}
    {n : ℕ} {plan : Option SurfacePlan}
    (h : planSurfaceEvent state event n log 0 projections = .ok plan) :
    NodesStep event state.nodes (applySurfacePlan state plan).1.nodes := by
  obtain ⟨-, -, op, hop, hcase⟩ := planSurfaceEvent_cases h
  have hmarker := surfaceOpOf_cases (surfaceOpOf_of_validateSurfaceMetadata hop)
  rcases hcase with ⟨projection, messages, hfind, -, rfl⟩ | ⟨-, -, hmove⟩
  · refine .still ?_
    by_contra htype
    have hneed : event.type.needsMessageProjection = false := by
      revert htype
      cases event.type <;> simp [EventType.needsMessageProjection, EventType.isSurfaceEligible]
    rw [find?_eq_none_of_declared hdeclared hneed] at hfind
    cases hfind
  · cases hmove with
    | logOnly =>
      rcases hmarker with ⟨htype, -⟩ | ⟨-, -, hnone⟩ | ⟨_, _, -, hnone⟩
      · exact .still htype
      · cases hnone
      · cases hnone
    | append =>
      rcases hmarker with ⟨-, hnone⟩ | ⟨htype, happend, -⟩ | ⟨_, _, -, hnone⟩
      · cases hnone
      · exact .append htype happend
      · cases hnone
    | replace hrange hsource =>
      have hreplace : event.isReplacement = true := by
        rcases hmarker with ⟨-, hnone⟩ | ⟨-, -, hnone⟩ | ⟨_, _, hreplace, -⟩
        · cases hnone
        · cases hnone
        · exact hreplace
      obtain ⟨-, -, hle, hshadowed⟩ := replacementRange_ok hrange
      refine .replace hreplace hle fun seq hseq => ?_
      rw [← hshadowed] at hseq
      exact cites_of_shadowed hsource hseq

section

variable {acc : SurfaceFoldState × List SurfaceFoldReplacement}
  (h : foldSurfaceState log projections = .ok acc)
include h

theorem lt_of_mem_cites (hmem : event ∈ log)
    (hreplace : event.isReplacement = true) (hcites : event.cites seq = true) :
    seq < event.seq := by
  revert event
  refine foldSurfaceState_induction (motive := fun log _ => ∀ {event : SessionEvent},
    event ∈ log → event.isReplacement = true → event.cites seq = true → seq < event.seq)
    (fun hmem => by cases hmem) ?_ h
  intro log last acc plan _ ih hplan event hmem hreplace hcites
  rcases List.mem_append.mp hmem with hold | hnew
  · exact ih hold hreplace hcites
  · rw [List.mem_singleton] at hnew
    subst hnew
    obtain ⟨-, -, op, hop, -⟩ := planSurfaceEvent_cases hplan
    rcases surfaceOpOf_cases (surfaceOpOf_of_validateSurfaceMetadata hop) with
      ⟨htype, -⟩ | ⟨-, happend, -⟩ | ⟨startSeq, endSeq, -, rfl⟩
    · simp [SessionEvent.isReplacement, htype] at hreplace
    · simp only [SessionEvent.isAppend, beq_iff_eq] at happend
      simp [SessionEvent.isReplacement, happend] at hreplace
    · exact lt_of_cites hop hcites

theorem seq_lt_of_mem (hmem : event ∈ log) :
    event.seq < log.length := by
  obtain ⟨i, hi, rfl⟩ := List.getElem_of_mem hmem
  rw [seq_of_foldSurfaceState h i hi]
  exact hi

end

section

variable {nodes next : List ℕ} (h : NodesStep event nodes next)
include h

/-- A transition adds no node but the event. -/
theorem NodesStep.mem_or_eq
    (hmem : seq ∈ next) : seq ∈ nodes ∨ seq = event.seq := by
  cases h with
  | still => exact Or.inl hmem
  | append => simpa using hmem
  | replace => exact mem_spliceNode hmem

theorem NodesStep.mem_of_eligible
    (htype : event.type.isSurfaceEligible = true) : event.seq ∈ next := by
  cases h with
  | still hstill =>
    rw [htype] at hstill
    cases hstill
  | append => exact List.mem_append_right _ (List.mem_singleton_self _)
  | replace => exact List.mem_append_right _ List.mem_cons_self

/-- A node leaves the surface only through a replacement that cites it. -/
theorem NodesStep.cites_of_gone
    (hmem : seq ∈ nodes) (hgone : seq ∉ next) :
    event.isReplacement = true ∧ event.cites seq = true := by
  cases h with
  | still => exact absurd hmem hgone
  | append => exact absurd (List.mem_append_left _ hmem) hgone
  | @replace startIdx endIdx hreplace hle hcites =>
    refine ⟨hreplace, hcites seq ?_⟩
    have hsplit : nodes = nodes.take startIdx ++ (nodes.take (endIdx + 1)).drop startIdx
        ++ nodes.drop (endIdx + 1) := by
      have htake : (nodes.take (endIdx + 1)).take startIdx = nodes.take startIdx := by
        rw [List.take_take, Nat.min_eq_left (by omega)]
      rw [← htake, List.take_append_drop, List.take_append_drop]
    rw [hsplit, List.mem_append, List.mem_append] at hmem
    rw [spliceNode, List.mem_append, List.mem_cons] at hgone
    tauto

end

end TianmaCoder
