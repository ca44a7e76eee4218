import TianmaCoder.Compaction.Accounting
import TianmaCoder.Compaction.Pruner
import TianmaCoder.Session.Fork
import TianmaCoder.Tokens.Drift

/-!
# One pass of the recency pruner

A pass renames the current nodes: a cleared result is replaced in place by a node whose message
has the marker for its text, and every other node stays with its message. The names of the
called tools do not change meanwhile, and a cleared result saves nothing more, so a pass that
follows at once finds nothing to clear.

## Main results

* `passed_pruneCandidates` — what a pass does, whatever its outcome.
* `RecencyPruneConfig.settled` — a pass that returned leaves nothing to rewrite.
-/

namespace TianmaCoder

open Checked

namespace Compaction

/-! ## Clearing content -/

/-- The blocks without text, in order. -/
def richBlocks (blocks : List Json) : List Json := blocks.filter fun block => !isTextBlock block

namespace RecencyPruneConfig

/-- The clearing loop behind some blocks. -/
structure ClearedTo (blocks : List Json) (acc : List Json × Bool) : Prop where
  rich : richBlocks acc.1 = richBlocks blocks
  marked : acc.2 = blocks.any isTextBlock
  measured : measureContent acc.1 = if acc.2 then CLEARED_MARKER.length else 0
  text : acc.1.any isTextBlock = acc.2

theorem ClearedTo.block {blocks : List Json} {acc : List Json × Bool} (h : ClearedTo blocks acc)
    (block : Json) : ClearedTo (blocks ++ [block]) (clearBlock acc block) := by
  obtain ⟨cleared, marked⟩ := acc
  by_cases htext : isTextBlock block = true
  · cases marked with
    | true =>
      have hstep : clearBlock (cleared, true) block = (cleared, true) := by
        simp [clearBlock, htext]
      rw [hstep]
      refine ⟨?_, ?_, h.measured, h.text⟩
      · rw [h.rich]
        simp [richBlocks, htext]
      · simp [htext]
    | false =>
      have hput : isTextBlock (block.put "text" (.str CLEARED_MARKER)) = true := by
        rw [isTextBlock, Json.get?_put, if_neg (by decide)]
        exact htext
      have hmarker : blockText (block.put "text" (.str CLEARED_MARKER)) = CLEARED_MARKER := by
        simp [blockText, Json.str?]
      have hzero : measureContent cleared = 0 := h.measured
      have hstep : clearBlock (cleared, false) block =
          (cleared ++ [block.put "text" (.str CLEARED_MARKER)], true) := by
        simp [clearBlock, htext]
      rw [hstep]
      refine ⟨?_, ?_, ?_, ?_⟩
      · have hrich := h.rich
        simp only [richBlocks] at hrich ⊢
        simp [hrich, hput, htext]
      · simp [htext]
      · unfold measureContent at hzero ⊢
        simp only [List.filter_append, List.map_append, List.sum_append, hzero]
        simp [hput, hmarker]
      · simp [hput]
  · have hstep : clearBlock (cleared, marked) block = (cleared ++ [block], marked) := by
      simp [clearBlock, htext]
    rw [hstep]
    refine ⟨?_, ?_, ?_, ?_⟩
    · have hrich := h.rich
      simp only [richBlocks] at hrich ⊢
      simp [hrich, htext]
    · have hmarked : marked = blocks.any isTextBlock := h.marked
      simp [htext, hmarked]
    · rw [← h.measured]
      simp [measureContent, htext]
    · have htexts := h.text
      simp only at htexts
      simp [htexts, htext]

theorem clearedTo (blocks : List Json) : ClearedTo blocks (blocks.foldl clearBlock ([], false)) := by
  induction blocks using List.reverseRecOn with
  | nil => exact ⟨rfl, rfl, rfl, rfl⟩
  | append_singleton blocks block ih =>
    rw [List.foldl_append]
    exact ih.block block

/-- Cleared content is the marker and the other blocks in order. -/
theorem clearContent_spec {blocks content : List Json} (h : clearContent blocks = some content) :
    measureContent content = CLEARED_MARKER.length ∧ richBlocks content = richBlocks blocks := by
  have hcleared := clearedTo blocks
  unfold clearContent at h
  split at h
  · next htext =>
      cases h
      have hmeasured := hcleared.measured
      rw [hcleared.marked, if_pos htext] at hmeasured
      exact ⟨hmeasured, hcleared.rich⟩
  · cases h

variable {config : RecencyPruneConfig} {blocks content : List Json}

theorem rewrite_eq_some_iff :
    config.rewrite blocks = .ok (some content) ↔
      clearContent blocks = some content ∧
        (config.minCharsSaved : ℤ) ≤ measureContent blocks - measureContent content := by
  unfold rewrite
  simp only [Except.ok.injEq, Option.filter_eq_some_iff, decide_eq_true_eq, not_lt]

theorem rewrite_cleared (hmin : 1 ≤ config.minCharsSaved) (h : clearContent blocks = some content) :
    config.rewrite content = .ok none := by
  unfold rewrite
  cases hagain : clearContent content with
  | none => rfl
  | some again =>
    have hfirst := (clearContent_spec h).1
    have hsecond := (clearContent_spec hagain).1
    rw [Option.filter_some, if_neg]
    simp only [decide_eq_true_eq, not_not]
    omega

end RecencyPruneConfig

/-! ## One landed replacement -/

section Landing

variable {projections : List SessionMessageProjection}

/-- The derived message of a position. -/
def messageAt (projections : List SessionMessageProjection) (log : List SessionEvent) (seq : ℕ) :
    Option Json :=
  (log[seq]?).bind fun event =>
    deriveEventMessage event (surfaceState projections log).projectedMessages

/-- The surface rules accept the log of a session. -/
def Attached.Replays (projections : List SessionMessageProjection) (s : Attached) : Prop :=
  ∃ acc, foldSurfaceState s.log projections = .ok acc

variable {log : List SessionEvent}

/-- An event that projects nothing leaves the projected messages. -/
theorem projectedMessages_applySurfacePlan {state : SurfaceFoldState} {event : SessionEvent} {n : ℕ}
    {plan : Option SurfacePlan} (hdeclared : DeclaredProjections projections)
    (htype : event.type.needsMessageProjection = false)
    (h : planSurfaceEvent state event n log 0 projections = .ok plan) :
    (applySurfacePlan state plan).1.projectedMessages = state.projectedMessages := by
  obtain ⟨-, -, op, -, hcase⟩ := planSurfaceEvent_cases h
  rcases hcase with ⟨projection, messages, hfind, -, -⟩ | ⟨-, -, hmove⟩
  · have hneeds := hdeclared projection (List.mem_of_find?_eq_some hfind)
    have hmatch := List.find?_some hfind
    rw [beq_iff_eq] at hmatch
    rw [hmatch, htype] at hneeds
    cases hneeds
  · cases hmove <;> rfl

variable {s : Attached} {env : Surroundings}

theorem Attached.appendIn_plain {s' : Attached} {type : EventType} {data : Json}
    {surfaceOp sourceEventSeqs : Option Json} (hdeclared : DeclaredProjections projections)
    (htype : type.needsMessageProjection = false) (hs : s.Replays projections)
    (h : s.appendIn projections env type data surfaceOp sourceEventSeqs = .ok s') :
    ∃ event plan, s'.log = s.log ++ [event] ∧ event.type = type ∧ event.data = data ∧
      event.seq = s.log.length ∧ event.surfaceOp = surfaceOp ∧ s'.Replays projections ∧
      planSurfaceEvent (surfaceState projections s.log) event s.log.length s.log 0 projections
        = .ok plan ∧
      (surfaceState projections s'.log).nodes
        = (applySurfacePlan (surfaceState projections s.log) plan).1.nodes ∧
      (surfaceState projections s'.log).projectedMessages
        = (surfaceState projections s.log).projectedMessages := by
  obtain ⟨plan, transition, hplan, -, -, -, hs'⟩ := append_cases h
  subst hs'
  obtain ⟨acc, hacc⟩ := hs
  rw [surfaceState_eq hacc] at hplan
  have hnext := foldSurfaceState_snoc_ok_iff.mpr ⟨acc, plan, hacc, hplan, rfl⟩
  refine ⟨_, plan, rfl, rfl, rfl, rfl, rfl, ⟨_, hnext⟩, ?_, ?_, ?_⟩
  · rw [surfaceState_eq hacc]
    exact hplan
  · rw [surfaceState_eq hnext, surfaceState_eq hacc]
  · rw [surfaceState_eq hnext, surfaceState_eq hacc]
    exact projectedMessages_applySurfacePlan hdeclared htype hplan

variable {seq : ℕ}

theorem splice_single {nodes : List ℕ} {range : ReplacementRange}
    (h : replacementRange nodes seq seq = .ok range) (new : ℕ) :
    ∃ before after, nodes = before ++ seq :: after ∧
      Splice.splice nodes range.startIdx range.endIdx new = before ++ new :: after := by
  obtain ⟨hstart, -, -, -⟩ := replacementRange_ok h
  obtain ⟨hlt, hget, -⟩ := List.idxOf?_eq_some_iff.mp hstart
  refine ⟨nodes.take range.startIdx, nodes.drop (range.startIdx + 1), ?_, ?_⟩
  · conv_lhs => rw [← List.take_append_drop range.startIdx nodes]
    rw [List.drop_eq_getElem_cons hlt]
    rw [hget]
  · rw [(replacementRange_single h).1]
    rfl

/-- Everything a landed replacement does. -/
structure Landed (projections : List SessionMessageProjection) (s : Attached)
    (candidate : PruneCandidate) (original : Json) (content : List Json) (s' : Attached) :
    Prop where
  replays : s'.Replays projections
  log : ∃ metering replacement, s'.log = s.log ++ [metering, replacement] ∧
    metering.type = .compactionPrune ∧ replacement.type = .toolResult ∧
    replacement.seq = s.log.length + 1 ∧
    replacement.data = candidate.event.data.put "message" (original.put "content" (.arr content))
  nodes : ∃ before after,
    (surfaceState projections s.log).nodes = before ++ candidate.seq :: after ∧
    (surfaceState projections s'.log).nodes = before ++ (s.log.length + 1) :: after
  projected : (surfaceState projections s'.log).projectedMessages
    = (surfaceState projections s.log).projectedMessages

variable {original : Json} {candidate : PruneCandidate}

/-- A metering append moves nothing. -/
theorem metered_quiet [NumberText] {metered : Attached}
    (hdeclared : DeclaredProjections projections)
    (hs : s.Replays projections) (h : candidate.meter projections s env original = .ok metered) :
    metered.Replays projections ∧
      (∃ metering, metered.log = s.log ++ [metering] ∧ metering.type = .compactionPrune) ∧
      (surfaceState projections metered.log).nodes = (surfaceState projections s.log).nodes ∧
      (surfaceState projections metered.log).projectedMessages
        = (surfaceState projections s.log).projectedMessages := by
  obtain ⟨event, plan, hlog, htype, -, -, -, hreplays, hplan, hnodes, hprojected⟩ :=
    Attached.appendIn_plain hdeclared rfl hs h
  refine ⟨hreplays, ⟨event, hlog, htype⟩, ?_, hprojected⟩
  have hmoved := nodes_applySurfacePlan hdeclared hplan
  have hshadow : event.type.isShadowPrice = true := by rw [htype]; rfl
  rw [isSurfaceEvent_of_isShadowPrice hshadow] at hmoved
  rw [hnodes]
  exact hmoved

theorem landed [NumberText] {metered replaced : Attached} {content : List Json}
    (hdeclared : DeclaredProjections projections)
    (hs : s.Replays projections) (hmeter : candidate.meter projections s env original = .ok metered)
    (hreplace : candidate.replace projections metered env original content = .ok replaced) :
    Landed projections s candidate original content replaced := by
  obtain ⟨hmetered, ⟨metering, hmetering, hmtype⟩, hkept, hkeptMessages⟩ :=
    metered_quiet hdeclared hs hmeter
  obtain ⟨event, plan, hlog, htype, hdata, hseq, hop, hreplays, hplan, hnodes, hprojected⟩ :=
    Attached.appendIn_plain hdeclared rfl hmetered hreplace
  have hlength : metered.log.length = s.log.length + 1 := by simp [hmetering]
  have hsurface := isSurfaceEvent_of_replace hplan (htype ▸ rfl) hop
  have hmoved := nodes_applySurfacePlan hdeclared hplan
  rw [hsurface] at hmoved
  obtain ⟨range, hrange, hspliced⟩ := hmoved
  rw [hkept] at hrange hspliced
  obtain ⟨before, after, hbefore, hafter⟩ := splice_single hrange event.seq
  refine ⟨hreplays, ⟨metering, event, ?_, hmtype, htype, ?_, hdata⟩, ⟨before, after, hbefore, ?_⟩,
    hprojected.trans hkeptMessages⟩
  · rw [hlog, hmetering, List.append_assoc]
    rfl
  · rw [hseq, hlength]
  · rw [hnodes, hspliced, hafter, hseq, hlength]

/-! ## A pass -/

/-- The text of the current surface, in code points. -/
def textChars (projections : List SessionMessageProjection) (log : List SessionEvent) : ℕ :=
  ((surfaceState projections log).nodes.map fun seq =>
    measureContent (contentOf ((messageAt projections log seq).getD .null))).sum

/-- A node that stays, with its event and its message. -/
structure Kept (projections : List SessionMessageProjection) (log log' : List SessionEvent)
    (seq seq' : ℕ) : Prop where
  same : seq' = seq
  event : log'[seq]? = log[seq]?
  message : messageAt projections log' seq = messageAt projections log seq

/-- A candidate whose place is taken by its rewritten content. -/
structure Rewritten (projections : List SessionMessageProjection)
    (rewrite : List Json → Except String (Option (List Json))) (candidate : PruneCandidate)
    (log log' : List SessionEvent) (seq seq' : ℕ) : Prop where
  place : candidate.seq = seq
  content : ∃ original content, messageAt projections log seq = some original ∧
    rewrite (contentOf original) = .ok (some content) ∧
    messageAt projections log' seq' = some (original.put "content" (.arr content)) ∧
    ∃ replacement, log'[seq']? = some replacement ∧ replacement.type = .toolResult ∧
      replacement.data = candidate.event.data.put "message" (original.put "content" (.arr content))

/-- The candidates of a pass: distinct current nodes with their events. -/
structure Current (projections : List SessionMessageProjection) (s : Attached)
    (candidates : List PruneCandidate) : Prop where
  event : ∀ candidate ∈ candidates, s.log[candidate.seq]? = some candidate.event
  node : ∀ candidate ∈ candidates, candidate.seq ∈ (surfaceState projections s.log).nodes
  distinct : (candidates.map (·.seq)).Nodup

/-- What a pass over some candidates does, with the place that each node has afterwards. -/
structure Passed (projections : List SessionMessageProjection)
    (rewrite : List Json → Except String (Option (List Json))) (candidates : List PruneCandidate)
    (s : Attached) (place : ℕ → ℕ) (outcome : Attached × Except String (List PrunedEntry)) :
    Prop where
  replays : outcome.1.Replays projections
  grown : ∃ rest, outcome.1.log = s.log ++ rest ∧ ∀ event ∈ rest, event.type ≠ .toolCall
  projected : (surfaceState projections outcome.1.log).projectedMessages
    = (surfaceState projections s.log).projectedMessages
  nodes : (surfaceState projections outcome.1.log).nodes
    = (surfaceState projections s.log).nodes.map place
  each : ∀ seq ∈ (surfaceState projections s.log).nodes,
    Kept projections s.log outcome.1.log seq (place seq) ∨ ∃ candidate ∈ candidates,
      Rewritten projections rewrite candidate s.log outcome.1.log seq (place seq)
  derived : ∀ entries, outcome.2 = .ok entries → ∀ candidate ∈ candidates,
    ∃ original, messageAt projections s.log candidate.seq = some original ∧
      ∀ content, rewrite (contentOf original) = .ok (some content) → place candidate.seq ≠ candidate.seq
  chars : ∀ entries, outcome.2 = .ok entries →
    (entries.map fun entry => (entry.charsBefore : ℤ) - entry.charsAfter).sum
      = textChars projections s.log - textChars projections outcome.1.log
  saved : ∀ entries, outcome.2 = .ok entries → ∀ entry ∈ entries, ∃ blocks content,
    rewrite blocks = .ok (some content) ∧ entry.charsBefore = measureContent blocks ∧
      entry.charsAfter = measureContent content

section Pass

variable {rewrite : List Json → Except String (Option (List Json))} {env : Surroundings}
  {s : Attached} {candidate : PruneCandidate} {candidates : List PruneCandidate}

/-- A node keeps its event and its message in a longer log. -/
theorem Kept.of_append {rest : List SessionEvent} (hlt : seq < log.length)
    (hprojected : (surfaceState projections (log ++ rest)).projectedMessages
      = (surfaceState projections log).projectedMessages) :
    Kept projections log (log ++ rest) seq seq := by
  have hevent : (log ++ rest)[seq]? = log[seq]? := List.getElem?_append_left hlt
  refine ⟨rfl, hevent, ?_⟩
  unfold messageAt
  rw [hevent, hprojected]

theorem Kept.refl (log : List SessionEvent) (seq : ℕ) : Kept projections log log seq seq :=
  ⟨rfl, rfl, rfl⟩

/-- A pass that changes nothing. -/
theorem Passed.still (hs : s.Replays projections) {result : Except String (List PrunedEntry)}
    (hresult : ∀ entries, result = .ok entries → entries = [] ∧ ∀ candidate ∈ candidates,
      ∃ original, messageAt projections s.log candidate.seq = some original ∧
        ∀ content, rewrite (contentOf original) ≠ .ok (some content)) :
    Passed projections rewrite candidates s id (s, result) where
  replays := hs
  grown := ⟨[], by simp, by simp⟩
  projected := rfl
  nodes := (List.map_id _).symm
  each := fun seq _ => .inl (Kept.refl s.log seq)
  derived := by
    intro entries hentries candidate hcandidate
    obtain ⟨original, hmessage, hnone⟩ := (hresult entries hentries).2 candidate hcandidate
    exact ⟨original, hmessage, fun content hcontent => absurd hcontent (hnone content)⟩
  chars := by
    intro entries hentries
    rw [(hresult entries hentries).1]
    simp
  saved := by
    intro entries hentries entry hentry
    rw [(hresult entries hentries).1] at hentry
    cases hentry

variable {log₁ log₂ : List SessionEvent}

theorem Kept.trans {seq₁ seq₂ : ℕ} (h : Kept projections log log₁ seq seq₁)
    (h' : Kept projections log₁ log₂ seq₁ seq₂) : Kept projections log log₂ seq seq₂ := by
  have hsame := h.same
  subst hsame
  exact ⟨h'.same, h'.event.trans h.event, h'.message.trans h.message⟩

theorem Rewritten.of_kept {seq' : ℕ} (h : Kept projections log log₁ seq seq)
    (h' : Rewritten projections rewrite candidate log₁ log₂ seq seq') :
    Rewritten projections rewrite candidate log log₂ seq seq' := by
  obtain ⟨original, content, hmessage, hcontent⟩ := h'.content
  exact ⟨h'.place, original, content, h.message ▸ hmessage, hcontent⟩

theorem Rewritten.kept {seq₁ seq₂ : ℕ}
    (h : Rewritten projections rewrite candidate log log₁ seq seq₁)
    (h' : Kept projections log₁ log₂ seq₁ seq₂) :
    Rewritten projections rewrite candidate log log₂ seq seq₂ := by
  have hsame := h'.same
  subst hsame
  obtain ⟨original, content, hmessage, hrewrite, hlanded, replacement, hevent, hdata⟩ := h.content
  exact ⟨h.place, original, content, hmessage, hrewrite, h'.message.trans hlanded, replacement,
    h'.event.trans hevent, hdata⟩

/-- A metering append whose replacement was refused moves nothing. -/
theorem Passed.metered [NumberText] (hdeclared : DeclaredProjections projections)
    (hs : s.Replays projections) {metered : Attached}
    (h : candidate.meter projections s env original = .ok metered) (message : String) :
    Passed projections rewrite candidates s id (metered, .error message) := by
  obtain ⟨hreplays, ⟨metering, hlog, htype⟩, hnodes, hprojected⟩ := metered_quiet hdeclared hs h
  obtain ⟨acc, hacc⟩ := hs
  refine ⟨hreplays, ⟨[metering], hlog, ?_⟩, hprojected, ?_, ?_, ?_, ?_, ?_⟩
  · intro event hevent
    rw [List.mem_singleton.mp hevent, htype]
    decide
  · rw [List.map_id]
    exact hnodes
  · intro seq hseq
    rw [surfaceState_eq hacc] at hseq
    left
    simp only [id, hlog] at hprojected ⊢
    exact Kept.of_append (nodes_lt_length hacc seq hseq) hprojected
  · intro entries hentries
    cases hentries
  · intro entries hentries
    cases hentries
  · intro entries hentries
    cases hentries

theorem Passed.skip {place : ℕ → ℕ} {outcome : Attached × Except String (List PrunedEntry)}
    (hmessage : messageAt projections s.log candidate.seq = some original)
    (hnone : rewrite (contentOf original) = .ok none)
    (h : Passed projections rewrite candidates s place outcome) :
    Passed projections rewrite (candidate :: candidates) s place outcome :=
  { h with
    each := by
      intro seq hseq
      rcases h.each seq hseq with hkept | ⟨c, hc, hrewritten⟩
      · exact .inl hkept
      · exact .inr ⟨c, List.mem_cons_of_mem _ hc, hrewritten⟩
    derived := by
      intro entries hentries c hc
      rcases List.mem_cons.mp hc with heq | hc
      · rw [heq]
        refine ⟨original, hmessage, ?_⟩
        intro content hcontent
        rw [hnone] at hcontent
        cases hcontent
      · exact h.derived entries hentries c hc }

theorem Current.tail (h : Current projections s (candidate :: candidates)) :
    Current projections s candidates where
  event := fun c hc => h.event c (List.mem_cons_of_mem _ hc)
  node := fun c hc => h.node c (List.mem_cons_of_mem _ hc)
  distinct := (List.nodup_cons.mp h.distinct).2

theorem Current.lt (h : Current projections s candidates) {c : PruneCandidate}
    (hc : c ∈ candidates) : c.seq < s.log.length :=
  (List.getElem?_eq_some_iff.mp (h.event c hc)).1

end Pass

/-! ## A landed replacement and the rest of its pass -/

section Land

variable {rewrite : List Json → Except String (Option (List Json))} {s replaced : Attached}
  {candidate : PruneCandidate} {candidates : List PruneCandidate} {original : Json}
  {content : List Json}

theorem Landed.kept (h : Landed projections s candidate original content replaced)
    (hlt : seq < s.log.length) : Kept projections s.log replaced.log seq seq := by
  obtain ⟨metering, replacement, hlog, -⟩ := h.log
  have hprojected := h.projected
  rw [hlog] at hprojected ⊢
  exact Kept.of_append hlt hprojected

theorem Landed.rewritten (hcurrent : CurrentProjections projections) (hs : s.Replays projections)
    (h : Landed projections s candidate original content replaced)
    (hmessage : messageAt projections s.log candidate.seq = some original)
    (hrewrite : rewrite (contentOf original) = .ok (some content)) :
    Rewritten projections rewrite candidate s.log replaced.log candidate.seq
      (s.log.length + 1) := by
  obtain ⟨metering, replacement, hlog, -, htype, hseq, hdata⟩ := h.log
  have hevent : replaced.log[s.log.length + 1]? = some replacement := by
    rw [hlog, List.getElem?_append_right (by omega)]
    simp
  have hnone : (surfaceState projections replaced.log).projectedMessages.lookup replacement.seq
      = none := by
    obtain ⟨acc, hacc⟩ := hs
    rw [h.projected, surfaceState_eq hacc]
    refine OrderedMap.lookup_eq_none fun hmem => ?_
    have hlt := projected_lt_length hcurrent hacc replacement.seq hmem
    omega
  refine ⟨rfl, original, content, hmessage, hrewrite, ?_, replacement, hevent, htype, hdata⟩
  unfold messageAt
  rw [hevent, Option.bind_some, deriveEventMessage, hnone]
  simp only [htype, SessionEvent.field, hdata, Json.get?_put_self]

theorem Landed.current (h : Landed projections s candidate original content replaced)
    (hcurrent : Current projections s (candidate :: candidates)) :
    Current projections replaced candidates where
  event := by
    intro c hc
    obtain ⟨metering, replacement, hlog, -⟩ := h.log
    rw [hlog, List.getElem?_append_left (hcurrent.lt (List.mem_cons_of_mem _ hc))]
    exact hcurrent.event c (List.mem_cons_of_mem _ hc)
  node := by
    intro c hc
    obtain ⟨before, after, hbefore, hafter⟩ := h.nodes
    have hmem := hcurrent.node c (List.mem_cons_of_mem _ hc)
    have hne : c.seq ≠ candidate.seq := by
      intro hsame
      exact (List.nodup_cons.mp hcurrent.distinct).1 (List.mem_map.mpr ⟨c, hc, hsame⟩)
    rw [hbefore] at hmem
    rw [hafter]
    simp only [List.mem_append, List.mem_cons] at hmem ⊢
    rcases hmem with hmem | hmem | hmem
    · exact .inl hmem
    · exact absurd hmem hne
    · exact .inr (.inr hmem)
  distinct := (List.nodup_cons.mp hcurrent.distinct).2

theorem Landed.textChars (hcurrent : CurrentProjections projections) (hs : s.Replays projections)
    (h : Landed projections s candidate original content replaced)
    (hmessage : messageAt projections s.log candidate.seq = some original)
    (hrewrite : rewrite (contentOf original) = .ok (some content)) :
    (measureContent (contentOf original) : ℤ) - measureContent content
      = textChars projections s.log - textChars projections replaced.log := by
  obtain ⟨acc, hacc⟩ := hs
  obtain ⟨before, after, hbefore, hafter⟩ := h.nodes
  have hlt : ∀ seq ∈ (surfaceState projections s.log).nodes, seq < s.log.length := by
    rw [surfaceState_eq hacc]
    exact nodes_lt_length hacc
  have hsame : ∀ nodes : List ℕ, (∀ seq ∈ nodes, seq < s.log.length) →
      (nodes.map fun seq => measureContent
          (contentOf ((messageAt projections replaced.log seq).getD .null))) =
        nodes.map fun seq => measureContent
          (contentOf ((messageAt projections s.log seq).getD .null)) := by
    intro nodes hnodes
    refine List.map_congr_left fun seq hseq => ?_
    rw [(h.kept (hnodes seq hseq)).message]
  have hnew := (h.rewritten hcurrent ⟨acc, hacc⟩ hmessage hrewrite).content
  obtain ⟨original', content', hmessage', hrewrite', hlanded, -⟩ := hnew
  have horiginal : original = original' := by
    rw [hmessage] at hmessage'
    exact Option.some.inj hmessage'
  subst horiginal
  have hcontent : content = content' := by
    rw [hrewrite] at hrewrite'
    exact Option.some.inj (Except.ok.inj hrewrite')
  subst hcontent
  have hput : contentOf (original.put "content" (.arr content)) = content := by
    simp [contentOf, Json.arr?]
  unfold Compaction.textChars
  rw [hbefore] at hlt
  rw [hafter, hbefore]
  simp only [List.map_append, List.map_cons, List.sum_append, List.sum_cons]
  rw [hsame before fun seq hseq => hlt seq (List.mem_append_left _ hseq),
    hsame after fun seq hseq => hlt seq (List.mem_append_right _ (List.mem_cons_of_mem _ hseq)),
    hlanded, hmessage, Option.getD_some, Option.getD_some, hput]
  push_cast
  ring

theorem Passed.land (hcurrent : CurrentProjections projections) (hs : s.Replays projections)
    (htodo : Current projections s (candidate :: candidates))
    (h : Landed projections s candidate original content replaced)
    (hmessage : messageAt projections s.log candidate.seq = some original)
    (hrewrite : rewrite (contentOf original) = .ok (some content)) (entry : PrunedEntry)
    (hbefore : entry.charsBefore = measureContent (contentOf original))
    (hafter : entry.charsAfter = measureContent content) {place : ℕ → ℕ}
    {outcome : Attached × Except String (List PrunedEntry)}
    (hrest : Passed projections rewrite candidates replaced place outcome) :
    Passed projections rewrite (candidate :: candidates) s
      (fun seq => place (if seq = candidate.seq then s.log.length + 1 else seq))
      (outcome.1, outcome.2.map (entry :: ·)) := by
  have hrewritten := h.rewritten hcurrent hs hmessage hrewrite
  have hchars := h.textChars hcurrent hs hmessage hrewrite
  obtain ⟨before, after, hnodes, hnodes'⟩ := h.nodes
  obtain ⟨acc, hacc⟩ := hs
  have hlt : ∀ seq ∈ (surfaceState projections s.log).nodes, seq < s.log.length := by
    rw [surfaceState_eq hacc]
    exact nodes_lt_length hacc
  have hnodup : (before ++ candidate.seq :: after).Nodup := by
    rw [← hnodes, surfaceState_eq hacc]
    exact nodes_nodup hacc
  have hnew : s.log.length + 1 ∈ (surfaceState projections replaced.log).nodes := by
    rw [hnodes']
    simp
  -- the new node is no candidate of this pass
  have hfresh : Kept projections replaced.log outcome.1.log (s.log.length + 1)
      (place (s.log.length + 1)) := by
    rcases hrest.each _ hnew with hkept | ⟨c, hc, hother⟩
    · exact hkept
    · have hold := htodo.lt (List.mem_cons_of_mem _ hc)
      have hplace := hother.place
      omega
  obtain ⟨metering, replacement, hlog, hmtype, hrtype, -⟩ := h.log
  refine ⟨hrest.replays, ?_, hrest.projected.trans h.projected, ?_, ?_, ?_, ?_, ?_⟩
  · obtain ⟨rest, hgrown, hquiet⟩ := hrest.grown
    refine ⟨[metering, replacement] ++ rest, ?_, ?_⟩
    · rw [hgrown, hlog, List.append_assoc]
    · intro event hevent
      rcases List.mem_append.mp hevent with hevent | hevent
      · simp only [List.mem_cons, List.not_mem_nil, or_false] at hevent
        rcases hevent with heq | heq
        · rw [heq, hmtype]
          decide
        · rw [heq, hrtype]
          decide
      · exact hquiet event hevent
  · have hapart : ∀ seq ∈ before ++ after, seq ≠ candidate.seq := by
      intro seq hseq hsame
      rw [hsame] at hseq
      have hsplit := List.nodup_middle.mp hnodup
      exact (List.nodup_cons.mp hsplit).1 hseq
    rw [hrest.nodes, hnodes', hnodes]
    simp only [List.map_append, List.map_cons, if_true]
    congr 1
    · refine List.map_congr_left fun seq hseq => ?_
      rw [if_neg (hapart seq (List.mem_append_left _ hseq))]
    · congr 1
      refine List.map_congr_left fun seq hseq => ?_
      rw [if_neg (hapart seq (List.mem_append_right _ hseq))]
  · intro seq hseq
    by_cases hsame : seq = candidate.seq
    · rw [if_pos hsame, hsame]
      exact .inr ⟨candidate, List.mem_cons_self, hrewritten.kept hfresh⟩
    · rw [if_neg hsame]
      have hkept := h.kept (hlt seq hseq)
      have hmem : seq ∈ (surfaceState projections replaced.log).nodes := by
        rw [hnodes] at hseq
        rw [hnodes']
        simp only [List.mem_append, List.mem_cons] at hseq ⊢
        tauto
      rcases hrest.each seq hmem with hstill | ⟨c, hc, hother⟩
      · exact .inl (hkept.trans hstill)
      · exact .inr ⟨c, List.mem_cons_of_mem _ hc, hother.of_kept hkept⟩
  · intro entries hentries c hc
    cases hresult : outcome.2 with
    | error message =>
      rw [hresult] at hentries
      cases hentries
    | ok rest =>
      rcases List.mem_cons.mp hc with heq | hc
      · rw [heq, if_pos rfl]
        refine ⟨original, hmessage, fun _ _ => ?_⟩
        have hlow := htodo.lt List.mem_cons_self
        rw [hfresh.same]
        omega
      · have hne : c.seq ≠ candidate.seq := fun hsame =>
          (List.nodup_cons.mp htodo.distinct).1 (List.mem_map.mpr ⟨c, hc, hsame⟩)
        obtain ⟨original', hmessage', hleft⟩ := hrest.derived rest hresult c hc
        rw [if_neg hne]
        refine ⟨original', ?_, hleft⟩
        rw [← (h.kept (htodo.lt (List.mem_cons_of_mem _ hc))).message]
        exact hmessage'
  · intro entries hentries
    cases hresult : outcome.2 with
    | error message =>
      rw [hresult] at hentries
      cases hentries
    | ok rest =>
      rw [hresult] at hentries
      cases hentries
      rw [List.map_cons, List.sum_cons, hrest.chars rest hresult, hbefore, hafter, hchars]
      simp only
      omega
  · intro entries hentries other hother
    cases hresult : outcome.2 with
    | error message =>
      rw [hresult] at hentries
      cases hentries
    | ok rest =>
      rw [hresult] at hentries
      cases hentries
      rcases List.mem_cons.mp hother with heq | hother
      · rw [heq]
        exact ⟨contentOf original, content, hrewrite, hbefore, hafter⟩
      · exact hrest.saved rest hresult other hother

end Land

variable {candidates : List PruneCandidate}

/-- The tool result at a position. -/
def candidateAt (log : List SessionEvent) (seq : ℕ) : Option PruneCandidate :=
  (log[seq]?).bind fun event => if event.type = .toolResult then some ⟨seq, event⟩ else none

theorem candidateAt_eq_some_iff :
    candidateAt log seq = some candidate ↔
      candidate.seq = seq ∧ log[seq]? = some candidate.event ∧ candidate.event.type = .toolResult := by
  unfold candidateAt
  rw [Option.bind_eq_some_iff]
  constructor
  · rintro ⟨event, hevent, h⟩
    split at h
    · next htype =>
        cases h
        exact ⟨rfl, hevent, htype⟩
    · cases h
  · rintro ⟨hseq, hevent, htype⟩
    refine ⟨candidate.event, hevent, ?_⟩
    rw [if_pos htype, ← hseq]

/-- The tool results on the surface of a session. -/
def results (projections : List SessionMessageProjection) (s : Attached) : List PruneCandidate :=
  snapshotCandidates s.log (surfaceState projections s.log).nodes

theorem results_eq (s : Attached) :
    results projections s = (surfaceState projections s.log).nodes.filterMap (candidateAt s.log) :=
  rfl

theorem current_results (hs : s.Replays projections) :
    Current projections s (results projections s) := by
  obtain ⟨acc, hacc⟩ := hs
  have hnodup : (surfaceState projections s.log).nodes.Nodup :=
    surfaceState_eq hacc ▸ nodes_nodup hacc
  refine ⟨?_, ?_, ?_⟩
  · intro c hc
    obtain ⟨seq, -, hc⟩ := List.mem_filterMap.mp hc
    obtain ⟨hseq, hevent, -⟩ := candidateAt_eq_some_iff.mp hc
    rw [hseq]
    exact hevent
  · intro c hc
    obtain ⟨seq, hmem, hc⟩ := List.mem_filterMap.mp hc
    rw [(candidateAt_eq_some_iff.mp hc).1]
    exact hmem
  · have hsub : ∀ nodes : List ℕ,
        ((nodes.filterMap (candidateAt s.log)).map (·.seq)).Sublist nodes := by
      intro nodes
      induction nodes with
      | nil => exact List.Sublist.refl _
      | cons seq nodes ih =>
        rw [List.filterMap_cons]
        cases hc : candidateAt s.log seq with
        | none => exact ih.cons _
        | some c =>
          rw [List.map_cons, (candidateAt_eq_some_iff.mp hc).1]
          exact ih.cons_cons _
    exact (hsub _).nodup hnodup

theorem Current.sublist {candidates' : List PruneCandidate} (h : Current projections s candidates)
    (hsub : candidates'.Sublist candidates) :
    Current projections s candidates' where
  event := fun c hc => h.event c (hsub.subset hc)
  node := fun c hc => h.node c (hsub.subset hc)
  distinct := (hsub.map _).nodup h.distinct

namespace RecencyPruneConfig

variable (config : RecencyPruneConfig)

/-- Where the active window of a session begins among its tool results. -/
def windowStart (projections : List SessionMessageProjection) (s : Attached) : ℕ :=
  (results projections s).length - config.keepRecentResults

/-- The tool results that a pass works on. -/
def eligible (projections : List SessionMessageProjection) (s : Attached) : List PruneCandidate :=
  ((results projections s).take (config.windowStart projections s)).filter
    (config.isCompactable s.log)

theorem eligible_sublist (s : Attached) :
    (config.eligible projections s).Sublist (results projections s) :=
  List.filter_sublist.trans (List.take_sublist _ _)

theorem pruneSession_eq [NumberText] (env : Surroundings) (s : Attached) :
    config.pruneSession projections env s =
      ((pruneCandidates projections env config.rewrite s (config.eligible projections s)).1,
        (pruneCandidates projections env config.rewrite s (config.eligible projections s)).2.map
          PruneResult.of) := rfl

/-- A pass without a candidate to rewrite leaves the session. -/
theorem pruneCandidates_none [NumberText] (env : Surroundings) (s : Attached)
    (hcurrent : Current projections s candidates)
    (h : ∀ c ∈ candidates, ∃ original, messageAt projections s.log c.seq = some original ∧
      config.rewrite (contentOf original) = .ok none) :
    pruneCandidates projections env config.rewrite s candidates = (s, .ok []) := by
  induction candidates with
  | nil => rfl
  | cons candidate candidates ih =>
    obtain ⟨original, hmessage, hnone⟩ := h candidate List.mem_cons_self
    unfold messageAt at hmessage
    rw [hcurrent.event candidate List.mem_cons_self, Option.bind_some] at hmessage
    have hrest := ih hcurrent.tail fun c hc => h c (List.mem_cons_of_mem _ hc)
    simp only [pruneCandidates, pruneCandidate, hmessage, hnone, hrest]
    rfl

theorem toolNameOf_append {rest : List SessionEvent} (h : ∀ event ∈ rest, event.type ≠ .toolCall)
    (callId : Option Json) : toolNameOf (log ++ rest) callId = toolNameOf log callId := by
  unfold toolNameOf
  rw [List.reverse_append, List.find?_append]
  have hnone : (rest.reverse.find? fun event =>
      decide (event.type = .toolCall ∧ event.field "callId" = callId)) = none := by
    rw [List.find?_eq_none]
    intro event hevent
    have htype := h event (List.mem_reverse.mp hevent)
    simp [htype]
  rw [hnone, Option.none_or]

/-- The tool results after a pass stand where those before it stood. -/
theorem results_passed {rewrite : List Json → Except String (Option (List Json))} {place : ℕ → ℕ}
    {outcome : Attached × Except String (List PrunedEntry)}
    (hcurrent : ∀ c ∈ candidates, c ∈ results projections s)
    (h : Passed projections rewrite candidates s place outcome) :
    List.Forall₂ (fun c c' : PruneCandidate => c'.seq = place c.seq)
      (results projections s) (results projections outcome.1) := by
  have hrelated : ∀ nodes : List ℕ, (∀ seq ∈ nodes, seq ∈ (surfaceState projections s.log).nodes) →
      List.Forall₂ (fun c c' : PruneCandidate => c'.seq = place c.seq)
        (nodes.filterMap (candidateAt s.log))
        ((nodes.map place).filterMap (candidateAt outcome.1.log)) := by
    intro nodes hnodes
    induction nodes with
    | nil => exact .nil
    | cons seq nodes ih =>
      have hrest := ih fun q hq => hnodes q (List.mem_cons_of_mem _ hq)
      rw [List.map_cons, List.filterMap_cons, List.filterMap_cons]
      rcases h.each seq (hnodes seq List.mem_cons_self) with hkept | ⟨c, hc, hrewritten⟩
      · have hsame : candidateAt outcome.1.log (place seq) = candidateAt s.log seq := by
          rw [hkept.same, candidateAt, hkept.event]
          rfl
        rw [hsame]
        cases hat : candidateAt s.log seq with
        | none => exact hrest
        | some c =>
          refine .cons ?_ hrest
          rw [(candidateAt_eq_some_iff.mp hat).1, hkept.same]
      · have hbefore : candidateAt s.log seq = some c := by
          obtain ⟨q, -, hq⟩ := List.mem_filterMap.mp (hcurrent c hc)
          obtain ⟨hseq, hevent, htype⟩ := candidateAt_eq_some_iff.mp hq
          rw [candidateAt_eq_some_iff, ← hrewritten.place]
          exact ⟨rfl, hseq ▸ hevent, htype⟩
        obtain ⟨original, content, -, -, -, replacement, hevent, htype, -⟩ := hrewritten.content
        have hafter : candidateAt outcome.1.log (place seq) = some ⟨place seq, replacement⟩ :=
          candidateAt_eq_some_iff.mpr ⟨rfl, hevent, htype⟩
        rw [hbefore, hafter]
        refine .cons ?_ hrest
        rw [hrewritten.place]
  have hall := hrelated _ fun seq hseq => hseq
  rw [results_eq, results_eq, h.nodes]
  exact hall

/-- A pass that returned leaves nothing to rewrite. -/
theorem settled [NumberText] {place : ℕ → ℕ} {outcome : Attached × Except String (List PrunedEntry)}
    {entries : List PrunedEntry} (hmin : 1 ≤ config.minCharsSaved) (hs : s.Replays projections)
    (h : Passed projections config.rewrite (config.eligible projections s) s place outcome)
    (hreturned : outcome.2 = .ok entries) (env : Surroundings) :
    config.pruneSession projections env outcome.1 = (outcome.1, .ok ⟨[], 0⟩) := by
  have hfinal := current_results h.replays
  have hrelated := results_passed
    (fun c hc => (config.eligible_sublist s).subset hc) h
  have hstart : config.windowStart projections outcome.1 = config.windowStart projections s := by
    unfold windowStart
    rw [hrelated.length_eq]
  obtain ⟨rest, hlog, hquiet⟩ := h.grown
  have hnone : ∀ c' ∈ config.eligible projections outcome.1, ∃ original,
      messageAt projections outcome.1.log c'.seq = some original ∧
        config.rewrite (contentOf original) = .ok none := by
    intro c' hc'
    obtain ⟨htake', hcompactable⟩ := List.mem_filter.mp hc'
    rw [hstart] at htake'
    obtain ⟨c, htake, hplace⟩ : ∃ c ∈ (results projections s).take
        (config.windowStart projections s), c'.seq = place c.seq :=
      Checked.forall₂_exists_left (List.forall₂_take _ hrelated) htake'
    have hresults := current_results hs
    have hc := List.mem_of_mem_take htake
    rcases h.each c.seq (hresults.node c hc) with hkept | ⟨cleared, -, hrewritten⟩
    · -- the result stayed, so the pass had nothing to rewrite there
      have hseq : c'.seq = c.seq := hplace.trans hkept.same
      have hevent : c'.event = c.event := by
        have hafter := hfinal.event c' (List.mem_of_mem_take htake')
        rw [hseq, hkept.event, hresults.event c hc] at hafter
        exact (Option.some.inj hafter).symm
      have heligible : c ∈ config.eligible projections s := by
        refine List.mem_filter.mpr ⟨htake, ?_⟩
        rw [← hcompactable]
        unfold isCompactable
        rw [hlog, toolNameOf_append hquiet, hevent]
      obtain ⟨original, hmessage, hleft⟩ := h.derived entries hreturned c heligible
      refine ⟨original, ?_, ?_⟩
      · rw [hseq, hkept.message]
        exact hmessage
      · cases hrewrite : config.rewrite (contentOf original) with
        | error message => cases hrewrite
        | ok rewritten =>
          cases rewritten with
          | none => rfl
          | some content => exact absurd hkept.same (hleft content hrewrite)
    · obtain ⟨original, content, -, hrewrite, hmessage, -⟩ := hrewritten.content
      refine ⟨original.put "content" (.arr content), ?_, ?_⟩
      · rw [hplace]
        exact hmessage
      · have hput : contentOf (original.put "content" (.arr content)) = content := by
          simp [contentOf, Json.arr?]
        rw [hput]
        exact rewrite_cleared hmin (rewrite_eq_some_iff.mp hrewrite).1
  have hempty := config.pruneCandidates_none env outcome.1
    (hfinal.sublist (config.eligible_sublist outcome.1)) hnone
  rw [pruneSession_eq, hempty]
  rfl

end RecencyPruneConfig

end Landing

end Compaction

end TianmaCoder
