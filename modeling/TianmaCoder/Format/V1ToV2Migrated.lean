import TianmaCoder.Format.V1ToV2Order

/-!
# Migrated sources

A migrated source keeps its order, its references and its inherited cut exactly when no
step of the stage overtakes what is held back, cites itself, or continues an attempt across
the cut.

## Main definitions

* `CutAt`, `Migrated` — the target keeps the cut, the order and the references of its source.

## Main results

* `migrated_iff_guarded` — when a migration does.
-/

namespace TianmaCoder

open Checked

namespace V1ToV2

/-- The returned cut separates what comes from before the source cut from the rest. -/
structure CutAt (header : ReleasedV1Header) (emitted : List Emitted) (cut : ℕ) : Prop where
  count : cut = emitted.countP fun x => x.origin.seqs.any (· < header.sourceCut)
  marker : ∃ x, emitted[cut]? = some x ∧ InheritedEndSeed x.event
  before : ∀ (i : ℕ) (x : Emitted), emitted[i]? = some x → i < cut → x.origin.Inherited header
  after : ∀ (i : ℕ) (x : Emitted), emitted[i]? = some x → cut ≤ i → x.origin.Live header

/-- The target keeps the order, the references and the inherited cut of its source. -/
structure Migrated (header : ReleasedV1Header) (source : List SessionEvent)
    (emitted : List Emitted) (cut : ℕ) : Prop where
  /-- Target seqs are 0, 1, 2, … -/
  seqs : emitted.map (·.event.seq) = List.range emitted.length
  /-- Every source event that is not a chunk has one image, in source order. -/
  images : emitted.filterMap (·.origin.image?)
    = (source.filter (·.type ≠ .assistantChunk)).map fun e => signature (surviving e)
  /-- What is generated beside a source event keeps its place. -/
  order : (emitted.filterMap (·.origin.position?)).Pairwise (· ≤ ·)
  /-- Every reference names the image of what it named, at an earlier seq. -/
  references : ∀ (i : ℕ) (x : Emitted), emitted[i]? = some x →
    List.Forall₂ (Names emitted i) x.origin.declared (references x.event)
  cut : header.isSeeded = true → CutAt header emitted cut

variable {header : ReleasedV1Header}

/-! ## Images -/

/-- Two target events are not images of events at one seq. -/
theorem imageSeq_inj {emitted : List Emitted}
    (h : ((emitted.filterMap (·.origin.image?)).map Prod.fst).Nodup) {i j seq : ℕ}
    (hi : imageSeq emitted i = some seq) (hj : imageSeq emitted j = some seq) : i = j := by
  rw [List.Nodup, List.pairwise_map, List.pairwise_filterMap] at h
  have hne : ∀ {i j : ℕ}, i < j → imageSeq emitted i = some seq →
      imageSeq emitted j = some seq → False := by
    intro i j hlt hi hj
    have hilen := imageSeq_lt hi
    have hjlen := imageSeq_lt hj
    rw [imageSeq, List.getElem?_eq_getElem hilen, Option.bind_some, Option.map_eq_some_iff] at hi
    rw [imageSeq, List.getElem?_eq_getElem hjlen, Option.bind_some, Option.map_eq_some_iff] at hj
    obtain ⟨a, ha, hseq⟩ := hi
    obtain ⟨b, hb, hseq'⟩ := hj
    exact List.pairwise_iff_getElem.mp h i j hilen hjlen hlt a ha b hb (hseq.trans hseq'.symm)
  rcases Nat.lt_trichotomy i j with hlt | heq | hgt
  · exact (hne hlt hi hj).elim
  · exact heq
  · exact (hne hgt hj hi).elim

theorem images_sublist_positions (emitted : List Emitted) :
    ((emitted.filterMap (·.origin.image?)).map Prod.fst).Sublist
      (emitted.filterMap (·.origin.position?)) := by
  induction emitted with
  | nil => exact .slnil
  | cons x emitted ih =>
    rcases x with ⟨origin, event⟩
    cases origin with
    | source e chunkSeqs => exact ih.cons_cons e.seq
    | generated seq => exact ih.cons seq
    | attempt chunkSeqs => exact ih
    | marker => exact ih

theorem images_eq {images arrived : List (ℕ × List (Option Json))} (hperm : images.Perm arrived)
    (hsorted : (arrived.map Prod.fst).Pairwise (· < ·))
    (horder : (images.map Prod.fst).Pairwise (· ≤ ·)) : images = arrived := by
  have hnodup : (arrived.map Prod.fst).Nodup := hsorted.imp Nat.ne_of_lt
  rw [List.pairwise_map] at hsorted horder
  refine hperm.eq_of_pairwise ?_ horder (hsorted.imp Nat.le_of_lt)
  intro a b ha hb hab hba
  exact List.inj_on_of_nodup_map hnodup (hperm.mem_iff.mp ha) hb (Nat.le_antisymm hab hba)

/-- A pointwise relation is strengthened by what holds of the members on the left. -/
theorem forall₂_imp_of_mem {α β : Type*} {R S : α → β → Prop} {xs : List α} {ys : List β}
    (h : List.Forall₂ R xs ys) (hRS : ∀ x ∈ xs, ∀ y, R x y → S x y) : List.Forall₂ S xs ys := by
  induction h with
  | nil => exact .nil
  | cons hxy _ ih =>
    refine .cons (hRS _ List.mem_cons_self _ hxy) (ih ?_)
    exact fun x hx => hRS x (List.mem_cons_of_mem _ hx)

/-! ## The target of a whole run -/

namespace Target.Tracks

variable {t : Target} {next : ℕ}

theorem seqs_eq_range (ht : t.Tracks header next) :
    t.emitted.map (·.event.seq) = List.range t.emitted.length := by
  refine List.ext_getElem (by simp) ?_
  intro i hi hi'
  rw [List.getElem_map, List.getElem_range]
  rw [List.length_map] at hi
  exact ht.seqs i _ (List.getElem?_eq_getElem hi)

/-- The images of a target are at distinct seqs. -/
theorem nodup_images {arrived : List (ℕ × List (Option Json))} (himages : t.images.Perm arrived)
    (hsorted : (arrived.map Prod.fst).Pairwise (· < ·)) : (t.images.map Prod.fst).Nodup := by
  have hnodup : (arrived.map Prod.fst).Nodup := hsorted.imp Nat.ne_of_lt
  exact (himages.map Prod.fst).nodup_iff.mpr hnodup

theorem references_iff (ht : t.Tracks header next) (hnodup : (t.images.map Prod.fst).Nodup) :
    (∀ (i : ℕ) (x : Emitted), t.emitted[i]? = some x →
      List.Forall₂ (Names t.emitted i) x.origin.declared (V1ToV2.references x.event))
      ↔ ∀ a ∈ t.images, some (.nat a.1) ∉ a.2 := by
  constructor
  · intro hbackward a ha hself
    obtain ⟨x, hx, himage⟩ := List.mem_filterMap.mp ha
    obtain ⟨i, hi⟩ := List.mem_iff_getElem?.mp hx
    have hrefs := hbackward i x hi
    have himageSeq : imageSeq t.emitted i = some a.1 := by
      rw [imageSeq, hi, Option.bind_some, himage]
      rfl
    have hdeclared : x.origin.declared = a.2 := by
      cases horigin : x.origin with
      | source e chunkSeqs =>
        rw [horigin] at himage
        cases himage
        rfl
      | generated seq => simp [horigin, Origin.image?] at himage
      | attempt chunkSeqs => simp [horigin, Origin.image?] at himage
      | marker => simp [horigin, Origin.image?] at himage
    rw [hdeclared] at hrefs
    obtain ⟨r', _, seq, position, hr, _, hlt, hnamed⟩ :=
      Checked.forall₂_exists_right hrefs hself
    rw [Option.some.injEq, Json.nat_inj] at hr
    subst hr
    exact absurd (imageSeq_inj hnodup hnamed himageSeq) (Nat.ne_of_lt hlt)
  · intro hcites i x hi
    refine forall₂_imp_of_mem (ht.references i x hi) ?_
    rintro r hr r' ⟨seq, position, hseq, hr', hlt, hnamed⟩
    refine ⟨seq, position, hseq, hr', Nat.lt_of_le_of_ne (Nat.lt_succ_iff.mp hlt) ?_, hnamed⟩
    rintro rfl
    rw [imageSeq, hi, Option.bind_some] at hnamed
    cases horigin : x.origin with
    | source e chunkSeqs =>
      rw [horigin] at hnamed hr
      have heq : e.seq = seq := Option.some.inj hnamed
      have himage : signature e ∈ t.images :=
        List.mem_filterMap.mpr ⟨x, List.mem_of_getElem? hi, by rw [horigin]; rfl⟩
      refine hcites (signature e) himage ?_
      rw [hseq, ← heq] at hr
      exact hr
    | generated seq => simp [horigin, Origin.image?] at hnamed
    | attempt chunkSeqs => simp [horigin, Origin.image?] at hnamed
    | marker => simp [horigin, Origin.image?] at hnamed

theorem countP_inherited {emitted : List Emitted} {cut : ℕ} (hcut : cut ≤ emitted.length)
    (hbefore : ∀ (i : ℕ) (x : Emitted), emitted[i]? = some x → i < cut → x.origin.Inherited header)
    (hafter : ∀ (i : ℕ) (x : Emitted), emitted[i]? = some x → cut ≤ i → x.origin.Live header) :
    emitted.countP (fun x => x.origin.seqs.any (· < header.sourceCut)) = cut := by
  rw [← List.take_append_drop cut emitted, List.countP_append]
  have htake : (emitted.take cut).countP (fun x => x.origin.seqs.any (· < header.sourceCut))
      = (emitted.take cut).length := by
    rw [List.countP_eq_length]
    intro x hx
    obtain ⟨i, hi⟩ := List.mem_iff_getElem?.mp hx
    rw [List.getElem?_take] at hi
    split at hi
    · next hlt =>
        obtain ⟨hne, hall⟩ := hbefore i x hi hlt
        obtain ⟨seq, hseq⟩ := List.exists_mem_of_ne_nil _ hne
        rw [List.any_eq_true]
        exact ⟨seq, hseq, decide_eq_true (hall seq hseq)⟩
    · cases hi
  have hdrop : (emitted.drop cut).countP (fun x => x.origin.seqs.any (· < header.sourceCut))
      = 0 := by
    rw [List.countP_eq_zero]
    intro x hx hany
    obtain ⟨i, hi⟩ := List.mem_iff_getElem?.mp hx
    rw [List.getElem?_drop] at hi
    obtain ⟨seq, hseq, hlt⟩ := List.any_eq_true.mp hany
    have hge := hafter _ x hi (Nat.le_add_right _ _) seq hseq
    have hlt := of_decide_eq_true hlt
    omega
  rw [htake, hdrop, List.length_take]
  omega

theorem cutAt_iff (ht : t.Tracks header next) (hmarked : t.Marked header) {cut : ℕ}
    (hseeded : header.isSeeded = true) (hcut : t.targetCut = some cut) :
    CutAt header t.emitted cut ↔ t.After header := by
  have hlt := hmarked hseeded cut hcut
  constructor
  · intro h i x hi hnot
    obtain ⟨cut', hcut', hle⟩ := Target.not_before_iff.mp hnot
    rw [hcut, Option.some.injEq] at hcut'
    exact h.after i x hi (hcut' ▸ hle)
  · intro hafter
    have hbefore : ∀ (i : ℕ) (x : Emitted), t.emitted[i]? = some x → i < cut →
        x.origin.Inherited header := by
      intro i x hi hi'
      refine ht.inherited i x hi fun cut' hcut' => ?_
      rw [hcut, Option.some.injEq] at hcut'
      exact hcut' ▸ hi'
    have hlive : ∀ (i : ℕ) (x : Emitted), t.emitted[i]? = some x → cut ≤ i →
        x.origin.Live header := by
      intro i x hi hle
      exact hafter i x hi (Target.not_before_iff.mpr ⟨cut, hcut, hle⟩)
    refine ⟨(countP_inherited (Nat.le_of_lt hlt) hbefore hlive).symm, ?_, hbefore, hlive⟩
    have hget := List.getElem?_eq_getElem hlt
    exact ⟨_, hget, ht.marker cut _ hget hseeded hcut⟩

/-- What a whole run keeps, read off its target. -/
theorem migrated_iff (ht : t.Tracks header next) (hmarked : t.Marked header)
    {source : List SessionEvent} {cut : ℕ} (himages : t.images.Perm
      ((source.filter (·.type ≠ .assistantChunk)).map fun e => signature (surviving e)))
    (hsorted : (((source.filter (·.type ≠ .assistantChunk)).map
      fun e => signature (surviving e)).map Prod.fst).Pairwise (· < ·))
    (hcut : header.isSeeded = true → t.targetCut = some cut) :
    Migrated header source t.emitted cut
      ↔ t.positions.Pairwise (· ≤ ·) ∧ (∀ a ∈ t.images, some (.nat a.1) ∉ a.2) ∧
        t.After header := by
  have hrefs := ht.references_iff (nodup_images himages hsorted)
  constructor
  · intro h
    refine ⟨h.order, hrefs.mp h.references, ?_⟩
    cases hseeded : header.isSeeded with
    | true => exact (ht.cutAt_iff hmarked hseeded (hcut hseeded)).mp (h.cut hseeded)
    | false =>
      intro i x _ _ seq _
      rw [header.unseeded hseeded]
      exact Nat.zero_le _
  · rintro ⟨horder, hcites, hafter⟩
    refine ⟨ht.seqs_eq_range, ?_, horder, hrefs.mpr hcites, ?_⟩
    · exact images_eq himages hsorted (horder.sublist (images_sublist_positions t.emitted))
    · exact fun hseeded => (ht.cutAt_iff hmarked hseeded (hcut hseeded)).mpr hafter

end Target.Tracks

/-! ## Steps of a source -/

/-- The steps an item is taken in. -/
def steps : SourceItem → List SourceStep
  | .event e => [.event e]
  | .chunkRun run => [.chunkRun run]
  | .run events => events.map .event

def SourceStep.events : SourceStep → List SessionEvent
  | .event e => [e]
  | .chunkRun run => run.expand

theorem steps_events (item : SourceItem) :
    (steps item).flatMap SourceStep.events = item.events := by
  cases item with
  | event e => rfl
  | chunkRun run => simp [steps, SourceStep.events, SourceItem.events]
  | run events =>
    simp [steps, SourceItem.events, List.flatMap_map, SourceStep.events, List.flatMap_singleton']

theorem foldlM_transformItem {assertReleasedEventPayload : SessionEvent → Except String Unit}
    {items : List SourceItem} {s s' : State}
    (h : items.foldlM (transformItem header assertReleasedEventPayload) s = .ok s') :
    (items.flatMap steps).foldlM (transformStep header) s = .ok s' := by
  induction items generalizing s with
  | nil => exact h
  | cons item items ih =>
    rw [List.foldlM_cons] at h
    obtain ⟨u, hu, hrest⟩ := bind_ok h
    rw [List.flatMap_cons, List.foldlM_append, bind_ok_iff]
    refine ⟨u, ?_, ih hrest⟩
    cases item with
    | event e =>
      obtain ⟨_, _, hstep⟩ := bind_ok hu
      rw [steps, List.foldlM_cons, hstep]
      rfl
    | chunkRun run =>
      have hstep : transformStep header s (.chunkRun run) = .ok u := hu
      rw [steps, List.foldlM_cons, hstep]
      rfl
    | run events => exact hu

theorem expandRun_length (key : DeltaKey) (time : ℤ) (dt : List ℤ) (members : List String) :
    (expandRun key time dt members).length = members.length := by
  induction members generalizing time dt with
  | nil => rfl
  | cons member members ih => rw [expandRun, List.length_cons, ih, List.length_cons]

/-- A packed row stands for one chunk event at each of its seqs. -/
theorem expand_seqs (run : ReleasedAssistantChunkRun) :
    run.expand.map (·.seq) = List.range' run.firstSeq run.eventCount := by
  refine List.ext_getElem ?_ ?_
  · simp [ReleasedAssistantChunkRun.expand, ReleasedAssistantChunkRun.stream,
      AssistantStreamRecord.expand, ReleasedAssistantChunkRun.eventCount, expandRun_length]
  · intro i hi hi'
    simp [ReleasedAssistantChunkRun.expand, ReleasedAssistantChunkRun.memberEvent]

theorem expand_type (run : ReleasedAssistantChunkRun) {e : SessionEvent} (he : e ∈ run.expand) :
    e.type = .assistantChunk := by
  obtain ⟨i, hi⟩ := List.mem_iff_getElem?.mp he
  rw [ReleasedAssistantChunkRun.expand, List.getElem?_mapIdx, Option.map_eq_some_iff] at hi
  obtain ⟨value, _, rfl⟩ := hi
  rfl

theorem step_seqs (step : SourceStep) :
    step.events.map (·.seq) = List.range' step.firstSeq step.count := by
  cases step with
  | event e => rfl
  | chunkRun run => exact expand_seqs run

theorem step_count_pos (step : SourceStep) : 0 < step.count := by
  cases step with
  | event e => exact Nat.one_pos
  | chunkRun run => exact List.length_pos_of_ne_nil run.members_ne

theorem dense_of_seqs {steps : List SourceStep} {next n : ℕ}
    (h : (steps.flatMap SourceStep.events).map (·.seq) = List.range' next n) :
    Dense next steps := by
  induction steps generalizing next n with
  | nil => trivial
  | cons step steps ih =>
    have hpos := step_count_pos step
    rw [List.flatMap_cons, List.map_append, step_seqs] at h
    have hlength := congrArg List.length h
    rw [List.length_append, List.length_range', List.length_range'] at hlength
    have hsplit : List.range' next n
        = List.range' next step.count ++ List.range' (next + step.count) (n - step.count) := by
      rw [List.range'_append_1]
      congr 1
      omega
    rw [hsplit] at h
    have hinj := List.append_inj h (by simp)
    have hhead := congrArg List.head? hinj.1
    have hne : step.count ≠ 0 := Nat.ne_of_gt hpos
    rw [List.head?_range', List.head?_range', if_neg hne, if_neg hne, Option.some.injEq] at hhead
    exact ⟨hhead, ih hinj.2⟩

theorem arrivals_eq (steps : List SourceStep) :
    steps.flatMap SourceStep.arrivals
      = ((steps.flatMap SourceStep.events).filter (·.type ≠ .assistantChunk)).map
          fun e => signature (surviving e) := by
  induction steps with
  | nil => rfl
  | cons step steps ih =>
    rw [List.flatMap_cons, List.flatMap_cons, List.filter_append, List.map_append, ih]
    congr 1
    cases step with
    | event e =>
      by_cases hchunk : e.type = .assistantChunk <;>
        simp [SourceStep.arrivals, SourceStep.events, arrivals, hchunk]
    | chunkRun run =>
      have hnone : run.expand.filter (·.type ≠ .assistantChunk) = [] := by
        rw [List.filter_eq_nil_iff]
        intro e he
        simp [expand_type run he]
      rw [SourceStep.arrivals, SourceStep.events, hnone]
      rfl

/-! ## Whole migrations -/

theorem finishMigration_ok {s s' : State} {cut : ℕ} (h : finishMigration header s = .ok (s', cut)) :
    ∃ settled, finishAttempt header s = .ok settled ∧
      ((header.isSeeded = true ∧ settled.target.targetCut = none ∧
          s'.target = settled.target.mark.push
            ⟨.marker, endSeed settled.target.targetSeq settled.lastTime⟩ settled.target.mapping ∧
          cut = settled.target.targetSeq) ∨
        s'.target = settled.target ∧
          (header.isSeeded = true → settled.target.targetCut = some cut)) := by
  obtain ⟨settled, hsettled, h⟩ := bind_ok h
  refine ⟨settled, hsettled, ?_⟩
  simp only at h
  split at h
  · next hopen =>
      cases h
      exact .inl ⟨hopen.1, hopen.2, rfl, rfl⟩
  · next hclosed =>
      cases h
      refine .inr ⟨rfl, fun hseeded => ?_⟩
      cases hcut : s'.target.targetCut with
      | none => exact absurd ⟨hseeded, hcut⟩ hclosed
      | some cut => rfl

theorem mark_last {t : Target} {next : ℕ} (ht : t.Tracks header next)
    (hseeded : header.isSeeded = true) (hnone : t.targetCut = none) (time : ℤ) :
    (t.mark.push ⟨.marker, endSeed t.targetSeq time⟩ t.mapping).Tracks header
      (max next header.sourceCut) ∧
    (t.mark.push ⟨.marker, endSeed t.targetSeq time⟩ t.mapping).Marked header ∧
    ((t.mark.push ⟨.marker, endSeed t.targetSeq time⟩ t.mapping).After header ↔ t.After header) := by
  have hmark := (ht.mono (Nat.le_max_left next header.sourceCut)).mark hseeded hnone
    (Nat.le_max_right next header.sourceCut)
  refine ⟨hmark.push (hmark.appends_marker rfl time), hmark.marked_push _ _, ?_⟩
  rw [hmark.after_push]
  have hold : t.mark.After header ↔ t.After header :=
    ⟨fun _ => Target.after_of_none hnone, fun _ => ht.after_mark⟩
  rw [hold]
  simp [Origin.Live, Origin.seqs]

theorem good_settled {t : Target} {arrived : List (ℕ × List (Option Json))} {next : ℕ}
    (himages : t.images.Perm arrived) :
    View.Good header ⟨t, none, [], arrived, next⟩
      ↔ t.positions.Pairwise (· ≤ ·) ∧ (∀ a ∈ t.images, some (.nat a.1) ∉ a.2) ∧
        t.After header := by
  have hcites : (∀ a ∈ t.images, some (.nat a.1) ∉ a.2)
      ↔ ∀ a ∈ arrived, some (.nat a.1) ∉ a.2 :=
    ⟨fun h a ha => h a (himages.mem_iff.mpr ha), fun h a ha => h a (himages.mem_iff.mp ha)⟩
  rw [hcites]
  constructor
  · intro h
    have horder := h.order
    rw [List.map_nil, List.append_nil] at horder
    exact ⟨horder, h.cites, h.after⟩
  · rintro ⟨horder, hself, hafter⟩
    refine ⟨?_, hself, hafter, by simp, nofun⟩
    rw [List.map_nil, List.append_nil]
    exact horder

/-- A migrated source keeps its order, its references and its inherited cut exactly when no
step overtakes what is held back, cites itself, or continues an attempt across the cut. -/
theorem migrated_iff_guarded {assertReleasedEventPayload : SessionEvent → Except String Unit}
    {items : List SourceItem} {emitted : List Emitted} {cut n : ℕ}
    (hdense : (items.flatMap SourceItem.events).map (·.seq) = List.range n)
    (h : migrate header assertReleasedEventPayload items = .ok (emitted, cut)) :
    Migrated header (items.flatMap SourceItem.events) emitted cut
      ↔ Guarded (transformStep header) (StepOk header) (initial header)
          (items.flatMap steps) := by
  obtain ⟨s, hrun, h⟩ := bind_ok h
  obtain ⟨⟨s', cut'⟩, hfinish, hpure⟩ := bind_ok h
  cases hpure
  obtain ⟨settled, hsettled, htarget⟩ := finishMigration_ok hfinish
  have hevents : (items.flatMap steps).flatMap SourceStep.events
      = items.flatMap SourceItem.events := by
    rw [List.flatMap_assoc]
    exact List.flatMap_congr fun item _ => steps_events item
  have hsource := hdense
  rw [← hevents, List.range_eq_range'] at hdense
  have htracks := tracks_initial header
  have hpath := path_run (dense_of_seqs hdense) (foldlM_transformItem hrun) htracks.wellFormed
  have hsettle := hpath.trans (path_finishAttempt hsettled _ _)
  have hnone := (finishAttempt_ok hsettled).1
  obtain ⟨hfinal, hgood⟩ := htracks.path hsettle
  rw [state_view_of_none hnone, List.nil_append, arrivals_eq, hevents] at hfinal hgood
  have himages := hfinal.images
  rw [List.map_nil, List.append_nil] at himages
  have hsorted := hfinal.sorted
  have hinitial : ((initial header).view [] 0).Good header := good_initial header
  rw [good_settled himages, and_iff_right hinitial, and_true] at hgood
  rw [← hgood]
  rcases htarget with ⟨hseeded, hopen, htarget, hcut⟩ | ⟨htarget, hcut⟩
  · obtain ⟨hmark, hmarked, hafter⟩ :=
      mark_last hfinal.target hseeded hopen settled.lastTime
    rw [← htarget] at hmark hmarked hafter
    have himages' : s'.target.images = settled.target.images := by
      rw [htarget]
      simp [Target.images, Target.push, Target.mark, Origin.image?]
    have hpositions' : s'.target.positions = settled.target.positions := by
      rw [htarget]
      simp [Target.positions, Target.push, Target.mark, Origin.position?]
    rw [hmark.migrated_iff hmarked (himages' ▸ himages) hsorted, himages', hpositions', hafter]
    intro _
    rw [htarget, hcut]
    rfl
  · rw [htarget]
    exact hfinal.target.migrated_iff hfinal.marked himages hsorted hcut

/-! ## Examples of both -/

/-- A header without an inherited cut. -/
def unseededHeader : ReleasedV1Header where
  id := "legacy-goal"
  parentSession := none
  isSeeded := false
  createdAt := 1
  sourceCut := 0
  unseeded := fun _ => rfl

/-- An attempt that is not finished. -/
def unfinishedChunk : SessionEvent where
  type := .assistantChunk
  seq := 0
  time := 2
  data := .obj [("turn", .nat 0), ("step", .nat 0), ("chunk", (DeltaKey.text 0).delta "partial")]

/-- An event held back behind it. -/
def planMode (seq : ℕ) : SessionEvent where
  type := .planMode
  seq := seq
  time := 3
  data := .obj [("active", .bool true)]

/-- The legacy message of a cleared goal. -/
def goalMessage : SessionEvent where
  type := .userMessage
  seq := 2
  time := 4
  data :=
    let cleared := Json.obj [("id", .str "goal-1"), ("revision", .nat 1)]
    let text := "<goal_state>\x7b\"cleared\":\x7b\"id\":\"goal-1\",\"revision\":1\x7d,"
      ++ "\"clearedAt\":4\x7d</goal_state>"
    .obj
      [("id", .str "goal-message"), ("role", .str "user"),
        ("content", .arr [.obj [("type", .str "text"), ("text", .str text)]]),
        ("source", .obj
          [("kind", .str "goal"), ("goalId", .str "goal-1"), ("revision", .nat 1),
            ("round", .nat 0),
            ("change", .obj
              [("kind", .str "goal/change"), ("version", .nat 1), ("operation", .str "clear"),
                ("cleared", cleared), ("clearedAt", .nat 4)])])]
  surfaceOp := some (.str "append")

/-- A goal message that arrives while an event is held back. -/
def overtakenSource : List SourceItem :=
  [.event unfinishedChunk, .event (planMode 1), .event goalMessage]

/-- The goal message overtakes the event that is held back. -/
theorem migrated_fails : ¬ ∀ (header : ReleasedV1Header)
    (assertReleasedEventPayload : SessionEvent → Except String Unit) (items : List SourceItem)
    (emitted : List Emitted) (cut n : ℕ),
    (items.flatMap SourceItem.events).map (·.seq) = List.range n →
    migrate header assertReleasedEventPayload items = .ok (emitted, cut) →
    Migrated header (items.flatMap SourceItem.events) emitted cut := by
  intro h
  have hmigrated := h unseededHeader (fun _ => .ok ()) overtakenSource _ _ 3 (by decide) rfl
  exact absurd hmigrated.order (by decide)

/-- A header with one inherited event. -/
def seededHeader : ReleasedV1Header where
  id := "child"
  parentSession := some "parent"
  isSeeded := true
  createdAt := 1
  sourceCut := 1
  unseeded := nofun

/-- The end of the inherited events. -/
def seedEnd : SessionEvent where
  type := .sessionEndSeed
  seq := 1
  time := 5
  data := .obj []

/-- A packed attempt. -/
def packedAttempt : ReleasedAssistantChunkRun where
  firstSeq := 2
  turn := 0
  step := 0
  key := .text 0
  time0 := 6
  dt := [1]
  members := ["par", "tial"]
  members_ne := List.cons_ne_nil _ _
  dt_length := rfl
  times_safe := by decide
  counts := by decide
  id_ne := nofun

/-- The message that cites the packed attempt. -/
def citingMessage : SessionEvent where
  type := .assistantMessage
  seq := 4
  time := 8
  data := .obj [("turn", .nat 0), ("step", .nat 0), ("id", .str "answer")]
  sourceEventSeqs := some (.arr [.nat 2, .nat 3])
  surfaceOp := some (.str "append")

/-- A seeded source with a packed attempt and the message that takes it. -/
def citedSource : List SourceItem :=
  [.event (planMode 0), .event seedEnd, .chunkRun packedAttempt, .event citingMessage]

/-- An event without references that splits no goal is always allowed. -/
theorem eventOk_of_plain {s : State} {event : SessionEvent} (htype : event.type ≠ .userMessage)
    (hreferences : references (surviving event) = []) : EventOk header s event := by
  rw [eventOk_of_type htype]
  intro _ hself
  rw [CitesItself, hreferences] at hself
  cases hself

theorem migrated_citedSource : ∃ emitted cut,
    migrate seededHeader (fun _ => .ok ()) citedSource = .ok (emitted, cut) ∧
      Migrated seededHeader (citedSource.flatMap SourceItem.events) emitted cut := by
  have hruns : ∃ r, migrate seededHeader (fun _ => .ok ()) citedSource = .ok r := ⟨_, rfl⟩
  obtain ⟨⟨emitted, cut⟩, hrun⟩ := hruns
  refine ⟨emitted, cut, hrun, (migrated_iff_guarded (n := 5) (by decide) hrun).mpr ?_⟩
  refine ⟨eventOk_of_plain (by decide) (by decide), fun t ht => ?_⟩
  cases ht
  refine ⟨eventOk_of_plain (by decide) (by decide), fun t ht => ?_⟩
  cases ht
  refine ⟨nofun, fun t ht => ?_⟩
  cases ht
  exact ⟨eventOk_of_plain (by decide) (by decide), fun _ _ => trivial⟩

end V1ToV2

end TianmaCoder
