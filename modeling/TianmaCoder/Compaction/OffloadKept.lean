import TianmaCoder.Compaction.OffloadDecision
import TianmaCoder.Compaction.PrunedContent

/-!
# Omitted images stay omitted

An image that a decision has omitted is marked in every message that a session derives from it later:
appends keep the marks of the messages that exist, and a pruner that rewrites a tool result copies
the marked images into the new node.

## Main definitions

* `ImageOmitted` — an image of a derived message is offloaded.
* `Carries` — a position holds the message of an earlier position, perhaps rewritten by a pruner.

## Main results

* `Carries.imageOmitted` — an omitted image is omitted wherever its message is carried to.
* `offloadOldestImages_exact` — the calls of the service, and what holds after them.
-/

namespace TianmaCoder

namespace Compaction

open Checked FirstPlaces

/-! ## Images of a message -/

/-- The images of a message, in order. -/
def imagesOf (message : Json) : List Json := (contentOf message).filter isImage

theorem isTextBlock_of_image {block : Json} (h : isImage block = true) :
    isTextBlock block = false := by
  have htype : block.get? "type" = some (.str "image") := by simpa [isImage] using h
  rw [isTextBlock, htype]
  rfl

theorem BlockMarked.isImage {block block' : Json} (h : BlockMarked block block') :
    Compaction.isImage block' = Compaction.isImage block := by
  rcases h with rfl | ⟨-, rfl⟩
  · rfl
  · exact isImage_offloaded block

theorem BlockMarked.isOffloaded {block block' : Json} (h : BlockMarked block block')
    (hoff : Compaction.isOffloaded block = true) : Compaction.isOffloaded block' = true := by
  rcases h with rfl | ⟨-, rfl⟩
  · exact hoff
  · exact isOffloaded_offloaded block

/-- The images of a remarked message are those of the message, with some more marks. -/
theorem Remarked.images {message message' : Json} (h : Remarked message message') :
    List.Forall₂ BlockMarked (imagesOf message) (imagesOf message') := by
  unfold imagesOf
  have hblocks := h.blocks
  generalize contentOf message = blocks at hblocks
  generalize contentOf message' = blocks' at hblocks
  induction hblocks with
  | nil => exact .nil
  | cons hblock _ ih =>
    rw [List.filter_cons, List.filter_cons, hblock.isImage]
    split
    · exact .cons hblock ih
    · exact ih

/-! ## What the pruners keep -/

/-- A rewrite that keeps the images, with their marks and in order. -/
def KeepsImages (rewrite : List Json → Except String (Option (List Json))) : Prop :=
  ∀ blocks content, rewrite blocks = .ok (some content) →
    content.filter isImage = blocks.filter isImage

theorem filter_isImage_richBlocks (blocks : List Json) :
    (richBlocks blocks).filter isImage = blocks.filter isImage := by
  rw [richBlocks, List.filter_filter]
  refine List.filter_congr fun block _ => ?_
  by_cases himage : isImage block = true
  · rw [himage, isTextBlock_of_image himage]
    rfl
  · simp [himage]

theorem others_pieces (blocks : List Json) : others (pieces blocks) = richBlocks blocks := by
  induction blocks with
  | nil => rfl
  | cons block blocks ih =>
    rw [← List.singleton_append, pieces_append, others_append, ih, pieces_singleton, richBlocks,
      richBlocks, List.filter_append]
    congr 1
    by_cases htext : isTextBlock block = true
    · rw [piecesOf_text htext, others_map_inl]
      simp [htext]
    · rw [piecesOf_rich htext]
      simp [htext]

theorem keepsImages_pruneContent (config : ToolResultPruneConfig) :
    KeepsImages config.pruneContent := by
  intro blocks content h
  by_cases hle : measureContent blocks ≤ config.thresholdChars
  · rw [config.pruneContent_of_le hle] at h
    cases h
  · obtain ⟨content', hcontent, hcut, -⟩ := config.pruneContent_of_lt (Nat.not_le.mp hle)
    rw [hcontent] at h
    cases h
    rw [← filter_isImage_richBlocks, ← others_pieces, hcut.others_eq, others_pieces,
      filter_isImage_richBlocks]

theorem keepsImages_rewrite (config : RecencyPruneConfig) : KeepsImages config.rewrite := by
  intro blocks content h
  have hcleared := (RecencyPruneConfig.rewrite_eq_some_iff.mp h).1
  rw [← filter_isImage_richBlocks, (RecencyPruneConfig.clearContent_spec hcleared).2,
    filter_isImage_richBlocks]

/-! ## A pass of a pruner -/

variable {projections : List SessionMessageProjection} {s s' : Attached}

/-- A tool result that takes the place of one node. -/
def Rewrites (event : SessionEvent) (seq : ℕ) : Prop :=
  event.type = .toolResult ∧ event.surfaceOp =
    some (.obj [("op", .str "replace"), ("startSeq", .nat seq), ("endSeq", .nat seq)])

/-- What a pass over some nodes leaves: every message as it was, and the images of a rewritten node
in the event that takes its place. -/
structure PassKeeps (projections : List SessionMessageProjection) (seqs : List ℕ)
    (s s' : Attached) : Prop where
  replays : s'.Replays projections
  grown : s.log <+: s'.log
  kept : ∀ seq < s.log.length, messageAt projections s'.log seq = messageAt projections s.log seq
  rewritten : ∀ seq' ≥ s.log.length, ∀ event seq, s'.log[seq']? = some event →
    Rewrites event seq → seq ∈ seqs ∧ ∃ message message',
      messageAt projections s.log seq = some message ∧
      messageAt projections s'.log seq' = some message' ∧ imagesOf message' = imagesOf message

theorem PassKeeps.refl (hs : s.Replays projections) (seqs : List ℕ) :
    PassKeeps projections seqs s s where
  replays := hs
  grown := List.prefix_refl _
  kept := fun _ _ => rfl
  rewritten := by
    intro seq' hle event seq hevent
    have hlt := (List.getElem?_eq_some_iff.mp hevent).1
    omega

theorem PassKeeps.trans {seqs seqs' : List ℕ} {s₁ : Attached} (h : PassKeeps projections seqs s s₁)
    (h' : PassKeeps projections seqs' s₁ s') (hseqs : ∀ seq ∈ seqs', seq < s.log.length) :
    PassKeeps projections (seqs ++ seqs') s s' where
  replays := h'.replays
  grown := h.grown.trans h'.grown
  kept := fun seq hseq => (h'.kept seq (by have := h.grown.length_le; omega)).trans (h.kept seq hseq)
  rewritten := by
    intro seq' hle event seq hevent hrewrites
    by_cases hlt : seq' < s₁.log.length
    · have hsame : s₁.log[seq']? = some event := by
        obtain ⟨rest, hrest⟩ := h'.grown
        rw [← hrest, List.getElem?_append_left hlt] at hevent
        exact hevent
      obtain ⟨hmem, message, message', hmessage, hmessage', himages⟩ :=
        h.rewritten seq' hle event seq hsame hrewrites
      exact ⟨List.mem_append_left _ hmem, message, message', hmessage,
        (h'.kept seq' hlt).trans hmessage', himages⟩
    · obtain ⟨hmem, message, message', hmessage, hmessage', himages⟩ :=
        h'.rewritten seq' (by omega) event seq hevent hrewrites
      exact ⟨List.mem_append_right _ hmem, message, message',
        (h.kept seq (hseqs seq hmem)).symm.trans hmessage, hmessage', himages⟩

section Pass

variable [NumberText] {env : Surroundings}
  {rewrite : List Json → Except String (Option (List Json))}

/-- A metering event keeps every message, and rewrites none. -/
theorem passKeeps_meter (hdeclared : DeclaredProjections projections) (hs : s.Replays projections)
    {candidate : PruneCandidate} {original : Json}
    (h : candidate.meter projections s env original = .ok s') : PassKeeps projections [] s s' := by
  obtain ⟨hreplays, ⟨metering, hlog, htype⟩, -, hprojected⟩ := metered_quiet hdeclared hs h
  refine ⟨hreplays, ⟨[metering], hlog.symm⟩, fun seq hseq => ?_, ?_⟩
  · rw [hlog] at hprojected ⊢
    exact (Kept.of_append hseq hprojected).message
  · intro seq' hle event seq hevent hrewrites
    rw [hlog, List.getElem?_append_right hle] at hevent
    have hsame : event = metering := by
      have hmem := List.mem_of_getElem? hevent
      exact List.mem_singleton.mp hmem
    have hresult := hrewrites.1
    rw [hsame, htype] at hresult
    cases hresult

theorem passKeeps_landed (hcurrent : CurrentProjections projections)
    (hdeclared : DeclaredProjections projections) (hkeeps : KeepsImages rewrite)
    (hs : s.Replays projections) {metered : Attached} {candidate : PruneCandidate} {original : Json}
    {content : List Json} (hmessage : messageAt projections s.log candidate.seq = some original)
    (hrewrite : rewrite (contentOf original) = .ok (some content))
    (hmeter : candidate.meter projections s env original = .ok metered)
    (hreplace : candidate.replace projections metered env original content = .ok s') :
    PassKeeps projections [candidate.seq] s s' := by
  have hlanded := landed hdeclared hs hmeter hreplace
  obtain ⟨original', content', hmessage', hrewrite', hnew, -⟩ :=
    (hlanded.rewritten hcurrent hs hmessage hrewrite).content
  rw [hmessage, Option.some.injEq] at hmessage'
  subst hmessage'
  rw [hrewrite, Except.ok.injEq, Option.some.injEq] at hrewrite'
  subst hrewrite'
  obtain ⟨hmetered, ⟨metering', hmetering', -⟩, -, -⟩ := metered_quiet hdeclared hs hmeter
  obtain ⟨event', _, hlog', -, -, -, hop, -⟩ :=
    Attached.appendIn_plain hdeclared rfl hmetered hreplace
  obtain ⟨metering, replacement, hlog, htype, -, hseq, -⟩ := hlanded.log
  have hsame : replacement = event' := by
    rw [hlog, hmetering', List.append_assoc] at hlog'
    have htail := List.append_cancel_left hlog'
    simp only [List.singleton_append, List.cons.injEq, and_true] at htail
    exact htail.2
  refine ⟨hlanded.replays, ⟨_, hlog.symm⟩, fun seq hlt => (hlanded.kept hlt).message, ?_⟩
  intro seq' hle event seq hevent hrewrites
  have himages : imagesOf (original.put "content" (.arr content)) = imagesOf original := by
    have hcontent : contentOf (original.put "content" (.arr content)) = content := by
      simp [contentOf, Json.arr?]
    rw [imagesOf, hcontent]
    exact hkeeps _ _ hrewrite
  rw [hlog, List.getElem?_append_right hle] at hevent
  have hcases : seq' = s.log.length ∧ event = metering ∨
      seq' = s.log.length + 1 ∧ event = replacement := by
    have hlt := (List.getElem?_eq_some_iff.mp hevent).1
    rw [List.length_cons, List.length_singleton] at hlt
    by_cases hfirst : seq' = s.log.length
    · rw [hfirst, Nat.sub_self, List.getElem?_cons_zero, Option.some.injEq] at hevent
      exact .inl ⟨hfirst, hevent.symm⟩
    · have hsecond : seq' = s.log.length + 1 := by omega
      rw [hsecond, Nat.add_sub_cancel_left, List.getElem?_cons_succ, List.getElem?_cons_zero,
        Option.some.injEq] at hevent
      exact .inr ⟨hsecond, hevent.symm⟩
  rcases hcases with ⟨-, rfl⟩ | ⟨rfl, rfl⟩
  · have hresult := hrewrites.1
    rw [htype] at hresult
    cases hresult
  · have hplace := hrewrites.2
    rw [hsame, hop] at hplace
    have hsame : candidate.seq = seq := by
      simp only [Option.some.injEq, Json.obj.injEq, List.cons.injEq, Prod.mk.injEq, true_and,
        Json.nat_inj, and_true] at hplace
      exact hplace.1
    refine ⟨List.mem_singleton.mpr hsame.symm, original, _, hsame ▸ hmessage, hnew, himages⟩

variable (env) in
theorem passKeeps_candidate (hcurrent : CurrentProjections projections)
    (hdeclared : DeclaredProjections projections)
    (hkeeps : KeepsImages rewrite) (hs : s.Replays projections) {candidate : PruneCandidate}
    (hevent : s.log[candidate.seq]? = some candidate.event) :
    PassKeeps projections [candidate.seq] s
      (pruneCandidate projections env rewrite s candidate).1 := by
  unfold pruneCandidate
  cases hderived : deriveEventMessage candidate.event
      (surfaceState projections s.log).projectedMessages with
  | none => exact PassKeeps.refl hs _
  | some original =>
    have hmessage : messageAt projections s.log candidate.seq = some original := by
      rw [messageAt, hevent, Option.bind_some, hderived]
    dsimp only
    cases hrewrite : rewrite (contentOf original) with
    | error message => exact PassKeeps.refl hs _
    | ok rewritten =>
      cases rewritten with
      | none => exact PassKeeps.refl hs _
      | some content =>
        dsimp only
        cases hmeter : candidate.meter projections s env original with
        | error message => exact PassKeeps.refl hs _
        | ok metered =>
          dsimp only
          cases hreplace : candidate.replace projections metered env original content with
          | error message =>
            have hmetered := passKeeps_meter hdeclared hs hmeter
            exact hmetered.trans (PassKeeps.refl hmetered.replays [candidate.seq])
              fun seq hseq => by
                rw [List.mem_singleton.mp hseq]
                exact (List.getElem?_eq_some_iff.mp hevent).1
          | ok replaced =>
            exact passKeeps_landed hcurrent hdeclared hkeeps hs hmessage hrewrite hmeter
              hreplace

theorem passKeeps_candidates (hcurrent : CurrentProjections projections)
    (hdeclared : DeclaredProjections projections)
    (hkeeps : KeepsImages rewrite) {candidates : List PruneCandidate} (hs : s.Replays projections)
    (hevents : ∀ c ∈ candidates, s.log[c.seq]? = some c.event) :
    PassKeeps projections (candidates.map PruneCandidate.seq) s
      (pruneCandidates projections env rewrite s candidates).1 := by
  induction candidates generalizing s with
  | nil => exact PassKeeps.refl hs _
  | cons candidate candidates ih =>
    have hone := passKeeps_candidate env hcurrent hdeclared hkeeps hs
      (hevents candidate List.mem_cons_self)
    have hlt : ∀ c ∈ candidates, c.seq < s.log.length := fun c hc =>
      (List.getElem?_eq_some_iff.mp (hevents c (List.mem_cons_of_mem _ hc))).1
    have hlater : ∀ c ∈ candidates,
        (pruneCandidate projections env rewrite s candidate).1.log[c.seq]? = some c.event := by
      intro c hc
      obtain ⟨rest, hrest⟩ := hone.grown
      rw [← hrest, List.getElem?_append_left (hlt c hc)]
      exact hevents c (List.mem_cons_of_mem _ hc)
    have hrest := hone.trans (ih hone.replays hlater) fun seq hseq => by
      obtain ⟨c, hc, rfl⟩ := List.mem_map.mp hseq
      exact hlt c hc
    have hstop := hone.trans (PassKeeps.refl hone.replays (candidates.map PruneCandidate.seq))
      fun seq hseq => by
        obtain ⟨c, hc, rfl⟩ := List.mem_map.mp hseq
        exact hlt c hc
    rw [pruneCandidates, List.map_cons]
    rcases hpruned : pruneCandidate projections env rewrite s candidate with ⟨s₁, entry | entry⟩
    · rw [hpruned] at hstop
      exact hstop
    · rw [hpruned] at hrest
      dsimp only at hrest ⊢
      split
      · next s₂ message hpass =>
          rw [hpass] at hrest
          exact hrest
      · next s₂ entries hpass =>
          rw [hpass] at hrest
          exact hrest

theorem passKeeps_pruneSession (hprojections : ∀ p ∈ projections, p = imageOffloadProjection)
    (hs : s.Replays projections) (pruner : ToolResultPruner) (env : Surroundings) :
    ∃ seqs, PassKeeps projections seqs s (pruner.pruneSession projections env s).1 := by
  have hcurrent := currentProjections_of_imageOffload hprojections
  have hdeclared := declared_of_imageOffload hprojections
  have hevents := (current_results hs).event
  cases pruner with
  | middle config =>
    exact ⟨_, passKeeps_candidates hcurrent hdeclared (keepsImages_pruneContent config) hs
      hevents⟩
  | recency config =>
    refine ⟨_, passKeeps_candidates hcurrent hdeclared (keepsImages_rewrite config) hs ?_⟩
    intro c hc
    exact hevents c (List.mem_of_mem_take (List.mem_of_mem_filter hc))

end Pass

/-! ## Omitted images -/

/-- An image of a derived message is omitted. -/
def ImageOmitted (projections : List SessionMessageProjection) (log : List SessionEvent)
    (seq index : ℕ) : Prop :=
  ∃ message image, messageAt projections log seq = some message ∧
    (imagesOf message)[index]? = some image ∧ isOffloaded image = true

variable [NumberText]

/-- A position holds the message of an earlier position: sessions append, pruners pass, and the
message of a node that a pruner rewrites is also at the new node. -/
inductive Carries (projections : List SessionMessageProjection) (s : Attached) (seq : ℕ) :
    Attached → ℕ → Prop where
  | refl : Carries projections s seq s seq
  | append {s₁ s₂ : Attached} {seq₁ : ℕ} {call : AppendCall}
      (h : Carries projections s seq s₁ seq₁) (happend : s₁.append projections call = .ok s₂) :
      Carries projections s seq s₂ seq₁
  | pass {s₁ : Attached} {seq₁ : ℕ} (pruner : ToolResultPruner) (env : Surroundings)
      (h : Carries projections s seq s₁ seq₁) :
      Carries projections s seq (pruner.pruneSession projections env s₁).1 seq₁
  | rewritten {s₁ : Attached} {seq₁ seq₂ : ℕ} {event : SessionEvent} (pruner : ToolResultPruner)
      (env : Surroundings) (h : Carries projections s seq s₁ seq₁) (hnew : s₁.log.length ≤ seq₂)
      (hevent : (pruner.pruneSession projections env s₁).1.log[seq₂]? = some event)
      (hrewrites : Rewrites event seq₁) :
      Carries projections s seq (pruner.pruneSession projections env s₁).1 seq₂

/-- An omitted image is omitted wherever its message is carried to. -/
theorem Carries.imageOmitted (hprojections : ∀ p ∈ projections, p = imageOffloadProjection)
    (hs : s.Replays projections) {seq seq' index : ℕ} (h : Carries projections s seq s' seq')
    (homitted : ImageOmitted projections s.log seq index) :
    s'.Replays projections ∧ ImageOmitted projections s'.log seq' index := by
  induction h with
  | refl => exact ⟨hs, homitted⟩
  | append _ happend ih =>
    obtain ⟨hreplays, message, image, hmessage, himage, hoff⟩ := ih
    obtain ⟨plan, transition, hplan, -, -, -, rfl⟩ := Attached.append_cases happend
    obtain ⟨acc, hacc⟩ := hreplays
    rw [surfaceState_eq hacc] at hplan
    have hnext := foldSurfaceState_snoc_ok_iff.mpr ⟨acc, plan, hacc, hplan, rfl⟩
    obtain ⟨message', hmessage', hmarked⟩ := messageAt_append hprojections hnext hmessage
    refine ⟨⟨_, hnext⟩, message', ?_⟩
    have himages := hmarked.images
    obtain ⟨hlt, hget⟩ := List.getElem?_eq_some_iff.mp himage
    have hlt' : index < (imagesOf message').length := himages.length_eq ▸ hlt
    have hblock := himages.get hlt hlt'
    refine ⟨_, hmessage', List.getElem?_eq_getElem hlt', hblock.isOffloaded ?_⟩
    rw [List.get_eq_getElem, hget]
    exact hoff
  | pass pruner env _ ih =>
    obtain ⟨hreplays, message, image, hmessage, himage, hoff⟩ := ih
    obtain ⟨seqs, hpass⟩ := passKeeps_pruneSession hprojections hreplays pruner env
    refine ⟨hpass.replays, message, image, ?_, himage, hoff⟩
    rw [hpass.kept, hmessage]
    unfold messageAt at hmessage
    obtain ⟨event, hevent, -⟩ := Option.bind_eq_some_iff.mp hmessage
    exact (List.getElem?_eq_some_iff.mp hevent).1
  | rewritten pruner env _ hnew hevent hrewrites ih =>
    obtain ⟨hreplays, message, image, hmessage, himage, hoff⟩ := ih
    obtain ⟨seqs, hpass⟩ := passKeeps_pruneSession hprojections hreplays pruner env
    obtain ⟨-, message₁, message', hmessage₁, hmessage', himages⟩ :=
      hpass.rewritten _ hnew _ _ hevent hrewrites
    rw [hmessage, Option.some.injEq] at hmessage₁
    refine ⟨hpass.replays, message', image, hmessage', ?_, hoff⟩
    rw [himages, ← hmessage₁]
    exact himage

/-! ## The calls of the service -/

variable {env : Surroundings} {seqs : List ℕ} {count : ℕ}

omit [NumberText] in
theorem Omitted.imageOmitted {event : SessionEvent} (h : Omitted projections s s' event seqs count)
    {seq place : ℕ} (hchosen : (seq, place) ∈ (retainedImages projections s.log seqs).take count) :
    ∃ message, messageAt projections s'.log seq = some message ∧
      ImageOmitted projections s'.log seq (((contentOf message).take place).countP isImage) := by
  have hplaces : place ∈ placesAt ((retainedImages projections s.log seqs).take count) seq :=
    List.mem_map.mpr ⟨_, List.mem_filter.mpr ⟨hchosen, by simp⟩, rfl⟩
  have hretained : place ∈ retainedAt s.log (surfaceState projections s.log).projectedMessages
      seq := by
    obtain ⟨other, -, himage⟩ := List.mem_flatMap.mp (List.mem_of_mem_take hchosen)
    obtain ⟨_, hplace, heq⟩ := List.mem_map.mp himage
    cases heq
    exact hplace
  obtain ⟨message, block, hmessage, hblock, hkept⟩ : ∃ message block,
      messageAt projections s.log seq = some message ∧
        (contentOf message)[place]? = some block ∧ isRetained block = true := by
    unfold retainedAt at hretained
    split at hretained
    · next source hsource =>
        split at hretained
        · obtain ⟨block, hblock, hkept⟩ := exists_of_mem_places hretained
          cases hderived : deriveEventMessage source
              (surfaceState projections s.log).projectedMessages with
          | none =>
            rw [hderived] at hblock
            cases hblock
          | some message =>
            rw [hderived] at hblock
            refine ⟨message, block, ?_, hblock, hkept⟩
            rw [messageAt, hsource, Option.bind_some, hderived]
        · cases hretained
    · cases hretained
  have hmarked := h.messages seq
  rw [hmessage, Option.map_some] at hmarked
  have himage : isImage block = true := by
    unfold isRetained at hkept
    exact (Bool.and_eq_true_iff.mp hkept).1
  refine ⟨_, hmarked, _, offloaded block, hmarked, ?_, isOffloaded_offloaded block⟩
  refine getElem?_filter_countP ?_ (by rw [isImage_offloaded, himage])
  have hcontent : contentOf (withOffloaded
      (placesAt ((retainedImages projections s.log seqs).take count) seq) message) =
      (contentOf message).mapIdx fun place block =>
        if place ∈ placesAt ((retainedImages projections s.log seqs).take count) seq then
          offloaded block
        else block := by
    rw [withOffloaded, if_neg (List.ne_nil_of_mem hplaces)]
    simp [contentOf, Json.arr?]
  rw [hcontent, List.getElem?_mapIdx, hblock, Option.map_some, if_pos hplaces]

/-- Calls one after another over the same nodes, with what they return. -/
def offloadRepeatedly (projections : List SessionMessageProjection) (env : Surroundings)
    (seqs : List ℕ) : Attached → List ℕ → List (Except String Bool)
  | _, [] => []
  | s, count :: counts =>
    let call := offloadOldestImages projections env s seqs count
    call.2 :: offloadRepeatedly projections env seqs call.1 counts

/-- A call that offloaded an image. -/
def hasOffloaded : Except String Bool → Bool
  | .ok offloaded => offloaded
  | .error _ => false

omit [NumberText] in
/-- No more calls offload an image than images are left. -/
theorem countP_offloadRepeatedly (hprojections : ∀ p ∈ projections, p = imageOffloadProjection)
    (hregistered : imageOffloadProjection ∈ projections) (hs : s.Replays projections)
    (htyped : ContentTyped s.log []) (hdistinct : seqs.Nodup)
    (hnodes : ∀ seq ∈ seqs, seq ∈ (surfaceState projections s.log).nodes)
    (hsafe : ∀ seq ∈ seqs, seq ≤ Json.maxSafeInteger) {counts : List ℕ}
    (hcounts : ∀ count ∈ counts, 0 < count) :
    (offloadRepeatedly projections env seqs s counts).countP hasOffloaded ≤
      (retainedImages projections s.log seqs).length := by
  induction counts generalizing s with
  | nil => simp [offloadRepeatedly]
  | cons count counts ih =>
    rw [List.forall_mem_cons] at hcounts
    have hcall : OffloadOutcome projections env s seqs count := offloadOldestImages_outcome
      hprojections hregistered hs htyped hdistinct hnodes hsafe hcounts.1
    have hsame : (offloadRepeatedly projections env seqs s counts).countP hasOffloaded ≤
        (retainedImages projections s.log seqs).length := ih hs htyped hnodes hcounts.2
    rw [offloadRepeatedly, List.countP_cons]
    by_cases hnone : retainedImages projections s.log seqs = []
    · rw [hcall.idle hnone]
      exact hsame
    · obtain ⟨event, htype, -, ⟨message, -, hresult⟩ | ⟨-, s', homitted, hresult⟩⟩ :=
        hcall.acts hnone
      · rw [hresult]
        exact hsame
      · have htyped' : ContentTyped s'.log [] := by
          intro e he hinput
          rw [homitted.log] at he
          rcases List.mem_append.mp he with hold | hnew
          · exact htyped e hold hinput
          · rw [List.mem_singleton.mp hnew] at hinput
            unfold SessionEvent.IsInput at hinput
            rw [htype] at hinput
            simp at hinput
        have hnodes' : ∀ seq ∈ seqs, seq ∈ (surfaceState projections s'.log).nodes := by
          rw [homitted.nodes]
          exact hnodes
        have hrest := ih homitted.replays htyped' hnodes' hcounts.2
        have hpos : 0 < (retainedImages projections s.log seqs).length :=
          List.length_pos_iff.mpr hnone
        have hleft := congrArg List.length homitted.left
        rw [List.length_drop] at hleft
        rw [hresult]
        have hone : hasOffloaded (.ok true) = true := rfl
        rw [if_pos hone]
        have hcount := hcounts.1
        dsimp only
        omega

/-- Image offload omits exactly the oldest images, for good: one call omits the first retained images
of the nodes with one decision that the projection accepts, or does nothing when none is left; no more
calls offload an image than were retained; and an omitted image stays omitted in every message that
any later session derives of it. -/
theorem offloadOldestImages_exact (hprojections : ∀ p ∈ projections, p = imageOffloadProjection)
    (hregistered : imageOffloadProjection ∈ projections) (hs : s.Replays projections)
    (htyped : ContentTyped s.log []) (hdistinct : seqs.Nodup)
    (hnodes : ∀ seq ∈ seqs, seq ∈ (surfaceState projections s.log).nodes)
    (hsafe : ∀ seq ∈ seqs, seq ≤ Json.maxSafeInteger) :
    (∀ count, 0 < count → OffloadOutcome projections env s seqs count) ∧
      (∀ counts : List ℕ, (∀ count ∈ counts, 0 < count) →
        (offloadRepeatedly projections env seqs s counts).countP hasOffloaded ≤
          (retainedImages projections s.log seqs).length) ∧
      (∀ {s' : Attached} {event : SessionEvent} {count seq place : ℕ},
        Omitted projections s s' event seqs count →
        (seq, place) ∈ (retainedImages projections s.log seqs).take count →
        ∃ message, messageAt projections s'.log seq = some message ∧
          ImageOmitted projections s'.log seq
            (((contentOf message).take place).countP isImage)) ∧
      ∀ {s₁ s₂ : Attached} {seq seq' index : ℕ}, s₁.Replays projections →
        Carries projections s₁ seq s₂ seq' → ImageOmitted projections s₁.log seq index →
          ImageOmitted projections s₂.log seq' index := by
  refine ⟨fun count hcount => ?_, fun counts hcounts => ?_, fun homitted => homitted.imageOmitted,
    fun hs₁ hcarries homitted => ?_⟩
  · exact offloadOldestImages_outcome hprojections hregistered hs htyped hdistinct hnodes hsafe
      hcount
  · exact countP_offloadRepeatedly hprojections hregistered hs htyped hdistinct hnodes hsafe
      hcounts
  · exact (hcarries.imageOmitted hprojections hs₁ homitted).2

/-- A session with one message, of a text and an image. -/
def photoSession : Attached where
  log := [{ type := .userMessage, seq := 0, time := 0
            data := .obj [("role", .str "user"), ("content", .arr
              [.obj [("type", .str "text"), ("text", .str "what is this?")],
                .obj [("type", .str "image"), ("data", .str "aGVsbG8=")]])]
            surfaceOp := some (.str "append"), sourceEventSeqs := none }]
  trace := freshTrace

omit [NumberText] in
theorem photo_offloaded : ∃ event s',
    Omitted [imageOffloadProjection] photoSession s' event [0] 1 ∧
      offloadOldestImages [imageOffloadProjection] ⟨fun _ => 0, fun _ => none⟩ photoSession [0] 1 =
        (s', .ok true) := by
  let _ : NumberText := ⟨fun _ => 0, fun _ => 0⟩
  have htyped : ContentTyped photoSession.log [] := by
    intro event hevent _
    rw [List.mem_singleton.mp hevent]
    exact ⟨_, _, rfl, rfl, by decide⟩
  have hcall : OffloadOutcome [imageOffloadProjection] ⟨fun _ => 0, fun _ => none⟩ photoSession [0]
      1 := (offloadOldestImages_exact (fun _ hp => List.mem_singleton.mp hp)
    (List.mem_singleton_self _) ⟨_, rfl⟩ htyped (List.nodup_singleton 0) (by decide)
    (by decide)).1 1 Nat.one_pos
  obtain ⟨event, -, -, ⟨message, hrefuse, -⟩ | ⟨-, s', homitted, hresult⟩⟩ :=
    hcall.acts (by decide)
  · cases hrefuse
  · exact ⟨event, s', homitted, hresult⟩

end Compaction

end TianmaCoder
