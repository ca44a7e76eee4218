import TianmaCoder.Compaction.RecencyCleared
import TianmaCoder.Lib.FirstPlaces

/-!
# Offloading the oldest images

One decision omits the oldest images of some input messages that are not omitted yet. The selection
counts the images of each message as the session derives it; the projection counts them again when
it marks them, and both walk over images that earlier decisions have marked.

## Main definitions

* `selectTargets`, `offloadOldestImages` — the decision.
* `retainedImages` — the images that are not omitted, by node and place.

## Main results

* `visitBlocks_selected` — the projection marks the images that were selected.
-/

namespace TianmaCoder

namespace Compaction

open Checked FirstPlaces

/-! ## Images -/

def isImage (block : Json) : Bool := block.get? "type" == some (.str "image")

def isOffloaded (block : Json) : Bool := block.get? "offloaded" == some (.bool true)

/-- An image that no decision has omitted. -/
def isRetained (block : Json) : Bool := isImage block && !isOffloaded block

/-- The block with its mark. -/
def offloaded (block : Json) : Json := block.put "offloaded" (.bool true)

theorem isOffloaded_offloaded (block : Json) : isOffloaded (offloaded block) = true := by
  simp [isOffloaded, offloaded]

theorem isImage_offloaded (block : Json) : isImage (offloaded block) = isImage block := by
  rw [isImage, isImage, offloaded, Json.get?_put, if_neg (by decide)]

theorem isRetained_offloaded (block : Json) : isRetained (offloaded block) = false := by
  rw [isRetained, isOffloaded_offloaded, Bool.not_true, Bool.and_false]

/-! ## The selection -/

/-- The variables of the loop over the blocks of one message. -/
structure OffloadScan where
  count : ℕ
  imageIndex : ℕ
  imageIndexes : List ℕ

/-- The loop over the blocks of one message. -/
def OffloadScan.visit (scan : OffloadScan) : List Json → OffloadScan
  | [] => scan
  | block :: blocks =>
    if scan.count = 0 then scan
    else if isImage block then
      if isOffloaded block then
        visit { scan with imageIndex := scan.imageIndex + 1 } blocks
      else
        visit ⟨scan.count - 1, scan.imageIndex + 1, scan.imageIndexes ++ [scan.imageIndex]⟩ blocks
    else visit scan blocks

/-- What the loop over the nodes selects: the nodes with the indexes of their images. -/
def selectTargets (log : List SessionEvent) (messages : OrderedMap ℕ Json) :
    ℕ → List ℕ → Except String (List (ℕ × List ℕ))
  | _, [] => pure []
  | 0, _ => pure []
  | count, seq :: seqs =>
    match log[seq]? with
    | none => throw "Cannot read properties of undefined (reading 'type')"
    | some event =>
      if event.type ≠ .userMessage ∧ event.type ≠ .toolResult then
        selectTargets log messages count seqs
      else
        match deriveEventMessage event messages with
        | none => throw "Cannot read properties of null (reading 'content')"
        | some message =>
          match message.get? "content" with
          | some (.arr content) => do
            let scan := OffloadScan.visit ⟨count, 0, []⟩ content
            let targets ← selectTargets log messages scan.count seqs
            pure (if scan.imageIndexes = [] then targets else (seq, scan.imageIndexes) :: targets)
          | _ => throw "blocks is not iterable"

/-- The data of a decision. -/
def offloadData (targets : List (ℕ × List ℕ)) : Json :=
  .obj [("targets", .arr (targets.map fun target =>
    .obj [("seq", .nat target.1), ("imageIndexes", .arr (target.2.map Json.nat))]))]

variable (projections : List SessionMessageProjection)

/-- Omit the oldest images: the session it leaves, and whether any was left to omit. -/
def offloadOldestImages (env : Surroundings) (s : Attached) (sourceEventSeqs : List ℕ)
    (count : ℕ) : Attached × Except String Bool :=
  match selectTargets s.log (surfaceState projections s.log).projectedMessages count
      sourceEventSeqs with
  | .error message => (s, .error message)
  | .ok [] => (s, .ok false)
  | .ok (target :: targets) =>
    match s.appendIn projections env .imageOffload (offloadData (target :: targets)) none none with
    | .error message => (s, .error message)
    | .ok s' => (s', .ok true)

/-! ## What is selected in one message -/

/-- The indexes of the first retained images, counting every image. -/
def selected : ℕ → ℕ → List Json → List ℕ
  | 0, _, _ => []
  | _, _, [] => []
  | count + 1, imageIndex, block :: blocks =>
    if isImage block then
      if isOffloaded block then selected (count + 1) (imageIndex + 1) blocks
      else imageIndex :: selected count (imageIndex + 1) blocks
    else selected (count + 1) imageIndex blocks

theorem isRetained_of_image {block : Json} (himage : isImage block = true) :
    isRetained block = !isOffloaded block := by
  rw [isRetained, himage, Bool.true_and]

theorem not_isRetained_of_not_image {block : Json} (himage : ¬isImage block = true) :
    isRetained block = false := by
  rw [isRetained, Bool.not_eq_true _ |>.mp himage, Bool.false_and]

/-- The loop selects these, and counts them off. -/
theorem visit_eq (blocks : List Json) (count imageIndex : ℕ) (imageIndexes : List ℕ) :
    (OffloadScan.visit ⟨count, imageIndex, imageIndexes⟩ blocks).imageIndexes =
        imageIndexes ++ selected count imageIndex blocks ∧
      (OffloadScan.visit ⟨count, imageIndex, imageIndexes⟩ blocks).count =
        count - blocks.countP isRetained := by
  induction blocks generalizing count imageIndex imageIndexes with
  | nil => cases count <;> simp [OffloadScan.visit, selected]
  | cons block blocks ih =>
    cases count with
    | zero => simp [OffloadScan.visit, selected]
    | succ count =>
      rw [OffloadScan.visit, if_neg (Nat.succ_ne_zero count), selected, List.countP_cons]
      by_cases himage : isImage block = true
      · rw [if_pos himage, if_pos himage, isRetained_of_image himage]
        by_cases hoff : isOffloaded block = true
        · rw [if_pos hoff, if_pos hoff, hoff]
          exact ih (count + 1) (imageIndex + 1) imageIndexes
        · rw [if_neg hoff, if_neg hoff]
          have hrest := ih count (imageIndex + 1) (imageIndexes ++ [imageIndex])
          refine ⟨?_, ?_⟩
          · rw [Nat.add_sub_cancel, hrest.1, List.append_assoc]
            rfl
          · rw [Nat.add_sub_cancel, hrest.2]
            simp [hoff]
      · rw [if_neg himage, if_neg himage, not_isRetained_of_not_image himage]
        exact ih (count + 1) imageIndex imageIndexes

variable {blocks : List Json} {count : ℕ}

theorem mem_selected_bounds {imageIndex index : ℕ} (h : index ∈ selected count imageIndex blocks) :
    imageIndex ≤ index ∧ index < imageIndex + blocks.length := by
  induction blocks generalizing count imageIndex with
  | nil => cases count <;> cases h
  | cons block blocks ih =>
    rw [List.length_cons]
    cases count with
    | zero => cases h
    | succ count =>
      rw [selected] at h
      split at h
      · split at h
        · have hrest := ih h
          omega
        · rcases List.mem_cons.mp h with rfl | h
          · omega
          · have hrest := ih h
            omega
      · have hrest := ih h
        omega

theorem visitBlocks_none (blocks : List Json) (imageIndex : ℕ) :
    visitBlocks imageIndex [] blocks = .ok (blocks, []) := by
  induction blocks generalizing imageIndex with
  | nil => rfl
  | cons block blocks ih =>
    have hstep : ∃ next, visitBlock imageIndex [] block = .ok (block, next, []) := by
      unfold visitBlock
      split
      · exact ⟨imageIndex + 1, rfl⟩
      · exact ⟨imageIndex, rfl⟩
    obtain ⟨next, hstep⟩ := hstep
    rw [visitBlocks, hstep, ok_bind, ih, ok_bind]
    rfl

theorem visitBlock_selected (block : Json) (blocks : List Json) (count imageIndex : ℕ) :
    ∃ next, visitBlock imageIndex (selected (count + 1) imageIndex (block :: blocks)) block =
        .ok (if isRetained block then offloaded block else block, next,
          selected (if isRetained block then count else count + 1) next blocks) := by
  have hlater : (selected (count + 1) (imageIndex + 1) blocks).head? ≠ some imageIndex := by
    intro hhead
    have hbounds := mem_selected_bounds (List.mem_of_head? hhead)
    omega
  have htype : block.get? "type" = some (.str "image") ↔ isImage block = true := by
    simp [isImage]
  have hmark : block.get? "offloaded" = some (.bool true) ↔ isOffloaded block = true := by
    simp [isOffloaded]
  rw [selected, visitBlock]
  simp only [htype, hmark]
  by_cases himage : isImage block = true
  · refine ⟨imageIndex + 1, ?_⟩
    rw [if_pos himage, if_pos himage, isRetained_of_image himage]
    by_cases hoff : isOffloaded block = true
    · rw [if_pos hoff, if_neg hlater]
      simp [hoff]
    · rw [if_neg hoff]
      simp [hoff, offloaded]
  · refine ⟨imageIndex, ?_⟩
    rw [if_neg himage, if_neg himage, not_isRetained_of_not_image himage]
    rfl

/-- The projection marks the images that were selected. -/
theorem visitBlocks_selected (blocks : List Json) (count imageIndex : ℕ) :
    visitBlocks imageIndex (selected count imageIndex blocks) blocks =
      .ok (mapFirst isRetained offloaded count blocks, []) := by
  induction blocks generalizing count imageIndex with
  | nil => cases count <;> rfl
  | cons block blocks ih =>
    cases count with
    | zero => exact visitBlocks_none _ _
    | succ count =>
      obtain ⟨next, hstep⟩ := visitBlock_selected block blocks count imageIndex
      rw [visitBlocks, hstep, ok_bind, ih, ok_bind, mapFirst]
      split <;> rfl

theorem selected_eq_nil_iff (blocks : List Json) (count imageIndex : ℕ) :
    selected count imageIndex blocks = [] ↔ count = 0 ∨ blocks.countP isRetained = 0 := by
  induction blocks generalizing count imageIndex with
  | nil => cases count <;> simp [selected]
  | cons block blocks ih =>
    cases count with
    | zero => simp [selected]
    | succ count =>
      rw [selected, List.countP_cons]
      by_cases himage : isImage block = true
      · rw [if_pos himage, isRetained_of_image himage]
        by_cases hoff : isOffloaded block = true
        · rw [if_pos hoff, ih, hoff]
          simp
        · rw [if_neg hoff]
          simp [hoff]
      · rw [if_neg himage, ih, not_isRetained_of_not_image himage]
        simp

theorem imageIndexesOf_selected {imageIndex : ℕ} {previous : ℤ} (hprevious : previous < imageIndex)
    (hsafe : imageIndex + blocks.length ≤ Json.maxSafeInteger + 1) :
    imageIndexesOf previous ((selected count imageIndex blocks).map Json.nat) =
      .ok (selected count imageIndex blocks) := by
  induction blocks generalizing count imageIndex previous with
  | nil => cases count <;> rfl
  | cons block blocks ih =>
    rw [List.length_cons] at hsafe
    cases count with
    | zero => rfl
    | succ count =>
      have hskip : ∀ {n next : ℕ}, imageIndex ≤ next → next ≤ imageIndex + 1 →
          imageIndexesOf previous ((selected n next blocks).map Json.nat) =
            .ok (selected n next blocks) :=
        fun _ _ => ih (by omega) (by omega)
      rw [selected]
      split
      · split
        · exact hskip (by omega) (by omega)
        · have hcount : Json.count? (some (Json.nat imageIndex)) = some imageIndex := by
            have hle : imageIndex ≤ Json.maxSafeInteger := by omega
            simp [Json.count?, Json.nat, hle]
          have hlt : ¬(imageIndex : ℤ) ≤ previous := by omega
          rw [List.map_cons, imageIndexesOf, hcount]
          simp only [if_neg hlt]
          rw [ih (by push_cast; omega) (by omega)]
          rfl
      · exact hskip (by omega) (by omega)

/-! ## One target -/

variable {messages : OrderedMap ℕ Json} {context : SessionMessageProjectionContext}

theorem projectTarget_cases {messages' : OrderedMap ℕ Json} {target : Json}
    (h : projectTarget context messages target = .ok messages') :
    ∃ seq source message indexes projected, seq ∈ context.nodes ∧
      windowEvent context.events context.baseSeq seq = some source ∧ source.IsInput ∧
      offloadSource context source seq = some message ∧
      offloadMessageImages message indexes = .ok projected ∧
      messages' = OrderedMap.set seq projected messages := by
  unfold projectTarget at h
  cases hadmitted : offloadTarget? target with
  | none => simp [hadmitted] at h
  | some admitted =>
    obtain ⟨seq, rawIndexes⟩ := admitted
    simp only [hadmitted] at h
    split at h
    · cases h
    · split at h
      · cases h
      · next hnode =>
          split at h
          · cases h
          · next source hsource =>
              split at h
              · cases h
              · next htype =>
                  have hinput : source.IsInput := by
                    unfold SessionEvent.IsInput
                    tauto
                  obtain ⟨indexes, -, h⟩ := bind_ok h
                  split at h
                  · cases h
                  · next message hmessage =>
                      obtain ⟨projected, hprojected, h⟩ := bind_ok h
                      cases h
                      exact ⟨seq, source, message, indexes, projected, by simpa using hnode,
                        hsource, hinput, hmessage, hprojected, rfl⟩

theorem offloadSource_eq {source : SessionEvent} (hinput : source.IsInput) :
    offloadSource context source source.seq = deriveEventMessage source context.messages := by
  unfold offloadSource deriveEventMessage
  cases context.messages.lookup source.seq with
  | some projected => rfl
  | none => rcases hinput with htype | htype <;> simp [htype]

/-- The target of a message. -/
def targetJson (target : ℕ × List ℕ) : Json :=
  .obj [("seq", .nat target.1), ("imageIndexes", .arr (target.2.map Json.nat))]

theorem count?_nat {n : ℕ} (h : n ≤ Json.maxSafeInteger) : Json.count? (some (.nat n)) = some n := by
  simp [Json.count?, Json.nat, h]

variable {message : Json}

/-- The projection accepts a target that was selected, and marks its first images. -/
theorem projectTarget_selected (messages : OrderedMap ℕ Json) {source : SessionEvent}
    (hnode : source.seq ∈ context.nodes)
    (hsource : windowEvent context.events context.baseSeq source.seq = some source)
    (hinput : source.IsInput) (hderived : deriveEventMessage source context.messages = some message)
    (hcontent : message.get? "content" = some (.arr blocks))
    (hseq : source.seq ≤ Json.maxSafeInteger) (hsafe : blocks.length ≤ Json.maxSafeInteger + 1)
    (hnew : messages.lookup source.seq = none) (hsome : selected count 0 blocks ≠ []) :
    projectTarget context messages (targetJson (source.seq, selected count 0 blocks)) =
      .ok (OrderedMap.set source.seq
        (message.put "content" (.arr (mapFirst isRetained offloaded count blocks))) messages) := by
  have hindexes : imageIndexesOf (-1) ((selected count 0 blocks).map Json.nat) =
      .ok (selected count 0 blocks) := imageIndexesOf_selected (by omega) (by omega)
  have htype : ¬(source.type ≠ .userMessage ∧ source.type ≠ .toolResult) := by
    unfold SessionEvent.IsInput at hinput
    tauto
  have hblocks : contentOf message = blocks := by simp [contentOf, hcontent, Json.arr?]
  have hadmitted : offloadTarget? (targetJson (source.seq, selected count 0 blocks)) =
      some (source.seq, (selected count 0 blocks).map Json.nat) := by
    obtain ⟨index, indexes, heq⟩ := List.exists_cons_of_ne_nil hsome
    have hget : (targetJson (source.seq, index :: indexes)).get? "seq" = some (.nat source.seq) :=
      rfl
    have hlist : (targetJson (source.seq, index :: indexes)).get? "imageIndexes" =
        some (.arr (Json.nat index :: indexes.map Json.nat)) := rfl
    rw [heq, targetJson] at *
    simp only [offloadTarget?, hget, hlist, count?_nat hseq]
    rfl
  have hmarked : offloadMessageImages message (selected count 0 blocks) =
      .ok (message.put "content" (.arr (mapFirst isRetained offloaded count blocks))) := by
    rw [offloadMessageImages, hblocks, visitBlocks_selected, ok_bind]
    rfl
  unfold projectTarget
  simp only [hadmitted, hnew, Option.isSome_none, Bool.false_eq_true, if_false, hnode,
    not_true_eq_false, hsource, if_neg htype, hindexes, ok_bind, offloadSource_eq hinput, hderived,
    hmarked]
  rfl

/-! ## The images of some nodes -/

/-- The places of the retained images in the message of a node. -/
def retainedAt (log : List SessionEvent) (messages : OrderedMap ℕ Json) (seq : ℕ) : List ℕ :=
  match log[seq]? with
  | some event =>
    if event.type = .userMessage ∨ event.type = .toolResult then
      places isRetained 0 (contentOf ((deriveEventMessage event messages).getD .null))
    else []
  | none => []

/-- The retained images of some nodes, in order. -/
def retainedIn (log : List SessionEvent) (messages : OrderedMap ℕ Json) (seqs : List ℕ) :
    List (ℕ × ℕ) :=
  seqs.flatMap fun seq => (retainedAt log messages seq).map fun place => (seq, place)

/-- The places that are chosen in one message. -/
def placesAt (chosen : List (ℕ × ℕ)) (seq : ℕ) : List ℕ :=
  (chosen.filter fun image => image.1 = seq).map Prod.snd

/-- The message with the blocks at some places marked. -/
def withOffloaded (marked : List ℕ) (message : Json) : Json :=
  if marked = [] then message
  else message.put "content" (.arr ((contentOf message).mapIdx fun place block =>
    if place ∈ marked then offloaded block else block))

theorem placesAt_append (a b : List (ℕ × ℕ)) (seq : ℕ) :
    placesAt (a ++ b) seq = placesAt a seq ++ placesAt b seq := by
  simp [placesAt]

theorem placesAt_own (marked : List ℕ) (seq : ℕ) :
    placesAt (marked.map fun place => (seq, place)) seq = marked := by
  simp [placesAt, List.filter_map, Function.comp_def]

theorem placesAt_other {a : List (ℕ × ℕ)} {seq : ℕ} (h : ∀ image ∈ a, image.1 ≠ seq) :
    placesAt a seq = [] := by
  unfold placesAt
  rw [List.map_eq_nil_iff, List.filter_eq_nil_iff]
  intro image himage
  simpa using h image himage

theorem fst_mem_retainedIn {log : List SessionEvent} {seqs : List ℕ} {image : ℕ × ℕ}
    (h : image ∈ retainedIn log messages seqs) : image.1 ∈ seqs := by
  obtain ⟨seq, hseq, himage⟩ := List.mem_flatMap.mp h
  obtain ⟨place, -, rfl⟩ := List.mem_map.mp himage
  exact hseq

/-- The derived messages of the input events have typed content, an array of blocks that is no longer
than the safe integers. With no messages projected this is what the types of a session promise. -/
def ContentTyped (log : List SessionEvent) (messages : OrderedMap ℕ Json) : Prop :=
  ∀ event ∈ log, event.IsInput → ∃ message blocks,
    deriveEventMessage event messages = some message ∧ message.get? "content" = some (.arr blocks) ∧
      blocks.length ≤ Json.maxSafeInteger

section Selection

variable {log : List SessionEvent} {context : SessionMessageProjectionContext}

/-- The positions of a log in front of a projection. -/
structure Positions (log : List SessionEvent) (context : SessionMessageProjectionContext)
    (seqs : List ℕ) : Prop where
  events : context.events = log
  base : context.baseSeq = 0
  node : ∀ seq ∈ seqs, seq ∈ context.nodes
  event : ∀ seq ∈ seqs, ∃ event, log[seq]? = some event ∧ event.seq = seq
  safe : ∀ seq ∈ seqs, seq ≤ Json.maxSafeInteger
  distinct : seqs.Nodup

theorem Positions.tail {seq : ℕ} {seqs : List ℕ} (h : Positions log context (seq :: seqs)) :
    Positions log context seqs where
  events := h.events
  base := h.base
  node := fun seq hseq => h.node seq (List.mem_cons_of_mem _ hseq)
  event := fun seq hseq => h.event seq (List.mem_cons_of_mem _ hseq)
  safe := fun seq hseq => h.safe seq (List.mem_cons_of_mem _ hseq)
  distinct := (List.nodup_cons.mp h.distinct).2

/-- The selection, and what the projection makes of it. -/
structure TargetsOf (log : List SessionEvent) (context : SessionMessageProjectionContext)
    (messages : OrderedMap ℕ Json) (chosen : List (ℕ × ℕ)) (targets : List (ℕ × List ℕ)) :
    Prop where
  nil : targets = [] ↔ chosen = []
  projects : ∃ messages', (targets.map targetJson).foldlM (projectTarget context) messages =
    .ok messages' ∧ ∀ seq, messages'.lookup seq =
      if placesAt chosen seq = [] then messages.lookup seq
      else (log[seq]?.bind fun event => deriveEventMessage event context.messages).map
        (withOffloaded (placesAt chosen seq))

theorem TargetsOf.none (messages : OrderedMap ℕ Json) : TargetsOf log context messages [] [] :=
  ⟨by simp, messages, rfl, fun seq => by simp [placesAt]⟩

/-- A target before those of other nodes. -/
theorem TargetsOf.cons {seq : ℕ} {indexes own : List ℕ} {chosen : List (ℕ × ℕ)}
    {targets : List (ℕ × List ℕ)} {event : SessionEvent} (hevent : log[seq]? = some event)
    (hderived : deriveEventMessage event context.messages = some message) (hown : own ≠ [])
    (hproject : projectTarget context messages (targetJson (seq, indexes)) =
      .ok (OrderedMap.set seq (withOffloaded own message) messages))
    (hother : ∀ image ∈ chosen, image.1 ≠ seq)
    (h : TargetsOf log context (OrderedMap.set seq (withOffloaded own message) messages) chosen
      targets) :
    TargetsOf log context messages ((own.map fun place => (seq, place)) ++ chosen)
      ((seq, indexes) :: targets) := by
  obtain ⟨messages', hfold, hlookup⟩ := h.projects
  refine ⟨by simp [hown], messages', ?_, fun other => ?_⟩
  · rw [List.map_cons, List.foldlM_cons, hproject, ok_bind, hfold]
  · rw [hlookup, placesAt_append]
    by_cases hsame : other = seq
    · subst hsame
      rw [placesAt_own, placesAt_other hother, List.append_nil, if_pos rfl, if_neg hown, hevent,
        Option.bind_some, hderived, Option.map_some, OrderedMap.lookup_set, if_pos rfl]
    · have hnone : placesAt (own.map fun place => (seq, place)) other = [] := by
        refine placesAt_other fun image himage => ?_
        obtain ⟨place, -, rfl⟩ := List.mem_map.mp himage
        exact fun heq => hsame heq.symm
      rw [hnone, List.nil_append, OrderedMap.lookup_set, if_neg hsame]

theorem retainedAt_input {seq : ℕ} {event : SessionEvent} (hevent : log[seq]? = some event)
    (hinput : event.IsInput) (hderived : deriveEventMessage event messages = some message)
    (hcontent : message.get? "content" = some (.arr blocks)) :
    retainedAt log messages seq = places isRetained 0 blocks := by
  have hblocks : contentOf message = blocks := by simp [contentOf, hcontent, Json.arr?]
  unfold SessionEvent.IsInput at hinput
  simp only [retainedAt, hevent, if_pos hinput, hderived, Option.getD_some, hblocks]

theorem withOffloaded_places (hcontent : message.get? "content" = some (.arr blocks))
    (hsome : (places isRetained 0 blocks).take count ≠ []) :
    withOffloaded ((places isRetained 0 blocks).take count) message =
      message.put "content" (.arr (mapFirst isRetained offloaded count blocks)) := by
  have hblocks : contentOf message = blocks := by simp [contentOf, hcontent, Json.arr?]
  rw [withOffloaded, if_neg hsome, hblocks, mapFirst_eq_mapIdx]

/-- The loop selects the first retained images of the nodes, and the projection accepts them. -/
theorem selectTargets_spec {seqs : List ℕ} (count : ℕ) (messages : OrderedMap ℕ Json)
    (hpositions : Positions log context seqs) (htyped : ContentTyped log context.messages)
    (hnew : ∀ seq ∈ seqs, messages.lookup seq = none) :
    ∃ targets, selectTargets log context.messages count seqs = .ok targets ∧
      TargetsOf log context messages ((retainedIn log context.messages seqs).take count)
        targets := by
  induction seqs generalizing count messages with
  | nil =>
    have hnone : retainedIn log context.messages [] = [] := rfl
    refine ⟨[], by cases count <;> rfl, ?_⟩
    rw [hnone, List.take_nil]
    exact TargetsOf.none messages
  | cons seq seqs ih =>
    cases count with
    | zero =>
      refine ⟨[], rfl, ?_⟩
      rw [List.take_zero]
      exact TargetsOf.none messages
    | succ count =>
      obtain ⟨event, hevent, hseq⟩ := hpositions.event seq List.mem_cons_self
      have hrest : ∀ seq ∈ seqs, messages.lookup seq = none :=
        fun seq hseq => hnew seq (List.mem_cons_of_mem _ hseq)
      have hcons : retainedIn log context.messages (seq :: seqs) =
          ((retainedAt log context.messages seq).map fun place => (seq, place)) ++
            retainedIn log context.messages seqs := rfl
      by_cases hinput : event.IsInput
      · obtain ⟨message, blocks, hderived, hcontent, hlength⟩ :=
          htyped event (List.mem_of_getElem? hevent) hinput
        have htype : ¬(event.type ≠ .userMessage ∧ event.type ≠ .toolResult) := by
          unfold SessionEvent.IsInput at hinput
          tauto
        obtain ⟨hindexes, hcount⟩ := visit_eq blocks (count + 1) 0 []
        rw [List.nil_append] at hindexes
        rw [hcons, retainedAt_input hevent hinput hderived hcontent, List.take_append,
          ← List.map_take, List.length_map, length_places]
        simp only [selectTargets, hevent, if_neg htype, hderived, hcontent, hindexes, hcount]
        by_cases hnone : selected (count + 1) 0 blocks = []
        · have hzero := (selected_eq_nil_iff blocks (count + 1) 0).mp hnone
          have hown : (places isRetained 0 blocks).take (count + 1) = [] := by
            rw [← List.length_eq_zero_iff, List.length_take, length_places]
            omega
          obtain ⟨targets, hselect, htargets⟩ :=
            ih (count + 1 - blocks.countP isRetained) messages hpositions.tail hrest
          refine ⟨targets, ?_, ?_⟩
          · rw [hselect, ok_bind, if_pos hnone]
            rfl
          · rw [hown]
            exact htargets
        · have hown : (places isRetained 0 blocks).take (count + 1) ≠ [] := by
            intro hzero
            apply hnone
            rw [selected_eq_nil_iff]
            have hlength := congrArg List.length hzero
            rw [List.length_take, length_places, List.length_nil] at hlength
            omega
          have hsafe := hpositions.safe seq List.mem_cons_self
          have hsource : windowEvent context.events context.baseSeq event.seq = some event := by
            rw [hpositions.events, hpositions.base, windowEvent_zero, hseq]
            exact hevent
          have hproject := projectTarget_selected messages
            (hseq ▸ hpositions.node seq List.mem_cons_self) hsource hinput hderived hcontent
            (by omega) (by omega) (hseq ▸ hnew seq List.mem_cons_self) hnone
          rw [hseq, ← withOffloaded_places hcontent hown] at hproject
          have hdistinct := (List.nodup_cons.mp hpositions.distinct).1
          have hnext : ∀ other ∈ seqs, (OrderedMap.set seq (withOffloaded
              ((places isRetained 0 blocks).take (count + 1)) message) messages).lookup other =
                none := by
            intro other hother
            have hne : other ≠ seq := by
              rintro rfl
              exact hdistinct hother
            rw [OrderedMap.lookup_set, if_neg hne]
            exact hrest other hother
          obtain ⟨targets, hselect, htargets⟩ :=
            ih (count + 1 - blocks.countP isRetained) _ hpositions.tail hnext
          refine ⟨(seq, selected (count + 1) 0 blocks) :: targets, ?_, ?_⟩
          · rw [hselect, ok_bind, if_neg hnone]
            rfl
          · refine TargetsOf.cons hevent hderived hown hproject ?_ htargets
            intro image himage heq
            exact hdistinct (heq ▸ fst_mem_retainedIn (List.mem_of_mem_take himage))
      · have htype : event.type ≠ .userMessage ∧ event.type ≠ .toolResult := by
          unfold SessionEvent.IsInput at hinput
          tauto
        have hown : retainedAt log context.messages seq = [] := by
          unfold SessionEvent.IsInput at hinput
          simp only [retainedAt, hevent, if_neg hinput]
        obtain ⟨targets, hselect, htargets⟩ := ih (count + 1) messages hpositions.tail hrest
        refine ⟨targets, ?_, ?_⟩
        · simp only [selectTargets, hevent, if_pos htype]
          exact hselect
        · rw [hcons, hown]
          exact htargets

end Selection

end Compaction

end TianmaCoder
