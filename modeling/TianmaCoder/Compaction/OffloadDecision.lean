import TianmaCoder.Compaction.OffloadOldest

/-!
# One offload decision

What an append does to the messages that a session derives: an offload decision marks images of the
messages it targets, and every other event leaves all messages as they are. The decision of the
service is accepted by the projection, and marks the images that it selected.

## Main definitions

* `Remarked` — a message with some more of its images marked.
* `OffloadOutcome` — what one call does.

## Main results

* `messageAt_append` — what an append does to one message.
* `offloadOldestImages_outcome` — one call omits the first retained images.
-/

namespace TianmaCoder

namespace Compaction

open Checked FirstPlaces

/-! ## Marks -/

/-- A block, or an image with its mark. -/
def BlockMarked (block block' : Json) : Prop :=
  block' = block ∨ isImage block = true ∧ block' = offloaded block

/-- A message with some of its images marked. -/
structure Remarked (message message' : Json) : Prop where
  blocks : List.Forall₂ BlockMarked (contentOf message) (contentOf message')
  content : ∀ blocks, message.get? "content" = some (.arr blocks) →
    message'.get? "content" = some (.arr (contentOf message'))

theorem Remarked.refl (message : Json) : Remarked message message where
  blocks := List.forall₂_same.mpr fun _ _ => .inl rfl
  content := by
    intro blocks hcontent
    rw [hcontent, contentOf, hcontent]
    rfl

variable {indexes : List ℕ}

theorem blockMarked_visitBlock {imageIndex : ℕ} {block : Json} {visited : Json × ℕ × List ℕ}
    (h : visitBlock imageIndex indexes block = .ok visited) : BlockMarked block visited.1 := by
  unfold visitBlock at h
  split at h
  · next himage =>
      split at h
      · split at h
        · cases h
        · cases h
          exact .inr ⟨by simpa [isImage] using himage, rfl⟩
      · cases h
        exact .inl rfl
  · cases h
    exact .inl rfl

variable {blocks : List Json}

theorem blockMarked_visitBlocks {imageIndex : ℕ} {visited : List Json × List ℕ}
    (h : visitBlocks imageIndex indexes blocks = .ok visited) :
    List.Forall₂ BlockMarked blocks visited.1 := by
  induction blocks generalizing imageIndex indexes visited with
  | nil =>
    cases h
    exact .nil
  | cons block blocks ih =>
    obtain ⟨first, hfirst, h⟩ := bind_ok h
    obtain ⟨rest, hrest, h⟩ := bind_ok h
    cases h
    exact .cons (blockMarked_visitBlock hfirst) (ih hrest)

variable {message : Json}

/-- A projected message has some more images marked. -/
theorem remarked_offloadMessageImages {projected : Json}
    (h : offloadMessageImages message indexes = .ok projected) : Remarked message projected := by
  obtain ⟨visited, hvisited, h⟩ := bind_ok h
  split at h
  · cases h
  · cases h
    have hcontent : contentOf (message.put "content" (.arr visited.1)) = visited.1 := by
      simp [contentOf, Json.arr?]
    refine ⟨?_, fun blocks _ => ?_⟩
    · rw [hcontent]
      exact blockMarked_visitBlocks hvisited
    · rw [hcontent]
      exact Json.get?_put_self _ _ _

/-! ## What an append does -/

variable {projections : List SessionMessageProjection}

variable {messages : OrderedMap ℕ Json}

theorem lookup_set_all (h : (OrderedMap.keys messages).Nodup) (m : OrderedMap ℕ Json) (seq : ℕ) :
    (messages.foldl (fun m (seq, message) => OrderedMap.set seq message m) m).lookup seq =
      (messages.lookup seq).or (m.lookup seq) := by
  refine (OrderedMap.foldl_entries (f := fun m seq => m.lookup seq) (g := fun message _ => some message)
    (fun m entry seq => OrderedMap.lookup_set _ _ _ _) h m seq).trans ?_
  cases messages.lookup seq <;> rfl

variable {event : SessionEvent}

theorem keys_imageOffloadMessages {context : SessionMessageProjectionContext}
    (h : imageOffloadMessages event context = .ok messages) :
    (OrderedMap.keys messages).Nodup ∧ ∀ seq ∈ OrderedMap.keys messages, seq ∈ context.nodes := by
  unfold imageOffloadMessages at h
  split at h
  · refine foldlM_induction (motive := fun _ messages => (OrderedMap.keys messages).Nodup ∧
      ∀ seq ∈ OrderedMap.keys messages, seq ∈ context.nodes) h
      ⟨List.nodup_nil, List.forall_mem_nil _⟩ ?_
    intro _ target before after _ ⟨hnodup, hnodes⟩ hstep
    obtain ⟨seq, _, _, _, projected, hnode, -, -, -, -, rfl⟩ := projectTarget_cases hstep
    refine ⟨OrderedMap.nodup_keys_set hnodup _ _, fun other hother => ?_⟩
    rw [OrderedMap.mem_keys_iff, OrderedMap.lookup_set] at hother
    split at hother
    · next heq => rw [heq]; exact hnode
    · exact hnodes other ((OrderedMap.mem_keys_iff _ _).mpr hother)
  · cases h

variable {log : List SessionEvent}

theorem imageOffloadMessages_cases {context : SessionMessageProjectionContext}
    (hevents : context.events = log) (hbase : context.baseSeq = 0)
    (hseq : ∀ (seq : ℕ) (source : SessionEvent), log[seq]? = some source → source.seq = seq)
    (h : imageOffloadMessages event context = .ok messages) (seq : ℕ) (projected : Json)
    (hprojected : messages.lookup seq = some projected) :
    ∃ source message, log[seq]? = some source ∧
      deriveEventMessage source context.messages = some message ∧ Remarked message projected := by
  unfold imageOffloadMessages at h
  split at h
  · refine foldlM_induction (motive := fun _ messages => ∀ seq projected,
      messages.lookup seq = some projected → ∃ source message, log[seq]? = some source ∧
        deriveEventMessage source context.messages = some message ∧ Remarked message projected) h
      (fun seq projected h => by cases h) ?_ seq projected hprojected
    intro _ target before after _ hbefore hstep other found hfound
    obtain ⟨seq, source, message, indexes, projected, -, hsource, hinput, hmessage, hmarked, rfl⟩ :=
      projectTarget_cases hstep
    rw [OrderedMap.lookup_set] at hfound
    split at hfound
    · next heq =>
        subst heq
        cases hfound
        rw [hevents, hbase, windowEvent_zero] at hsource
        rw [← hseq other source hsource, offloadSource_eq hinput] at hmessage
        exact ⟨source, message, hsource, hmessage, remarked_offloadMessageImages hmarked⟩
    · exact hbefore other found hfound
  · cases h

variable {acc : SurfaceFoldState × List SurfaceFoldReplacement}

theorem getElem?_seq_of_mem (hlog : foldSurfaceState log projections = .ok acc) (h : event ∈ log) :
    log[event.seq]? = some event := by
  obtain ⟨i, hi, rfl⟩ := List.getElem_of_mem h
  rw [seq_of_foldSurfaceState hlog i hi, List.getElem?_eq_getElem hi]

theorem seq_of_getElem? (hlog : foldSurfaceState log projections = .ok acc) {seq : ℕ}
    (h : log[seq]? = some event) : event.seq = seq := by
  obtain ⟨hlt, hget⟩ := List.getElem?_eq_some_iff.mp h
  rw [← hget]
  exact seq_of_foldSurfaceState hlog seq hlt

section Append

variable (hprojections : ∀ p ∈ projections, p = imageOffloadProjection)

include hprojections

theorem currentProjections_of_imageOffload : CurrentProjections projections := by
  intro projection hprojection event context messages hproject
  rw [hprojections projection hprojection] at hproject
  exact (keys_imageOffloadMessages hproject).2

theorem projected_applySurfacePlan {plan : Option SurfacePlan}
    (hlog : foldSurfaceState log projections = .ok acc)
    (hplan : planSurfaceEvent acc.1 event log.length log 0 projections = .ok plan) (seq : ℕ) :
    (applySurfacePlan acc.1 plan).1.projectedMessages.lookup seq =
        acc.1.projectedMessages.lookup seq ∨
      ∃ source message projected, log[seq]? = some source ∧
        deriveEventMessage source acc.1.projectedMessages = some message ∧
        Remarked message projected ∧
        (applySurfacePlan acc.1 plan).1.projectedMessages.lookup seq = some projected := by
  obtain ⟨-, -, op, -, hcase⟩ := planSurfaceEvent_cases hplan
  rcases hcase with ⟨projection, messages, hfind, hproject, rfl⟩ | ⟨-, -, hmove⟩
  · rw [hprojections projection (List.mem_of_find?_eq_some hfind)] at hproject
    have hseqs : ∀ (seq : ℕ) (source : SessionEvent), log[seq]? = some source →
        source.seq = seq := fun seq source hsource => seq_of_getElem? hlog hsource
    have hlookup := lookup_set_all (keys_imageOffloadMessages hproject).1
      acc.1.projectedMessages seq
    cases hfound : messages.lookup seq with
    | none =>
      rw [hfound, Option.none_or] at hlookup
      exact .inl hlookup
    | some projected =>
      rw [hfound, Option.some_or] at hlookup
      obtain ⟨source, message, hsource, hmessage, hmarked⟩ :=
        imageOffloadMessages_cases rfl rfl hseqs hproject seq projected hfound
      exact .inr ⟨source, message, projected, hsource, hmessage, hmarked, hlookup⟩
  · cases hmove <;> exact .inl rfl

theorem messageAt_append {acc' : SurfaceFoldState × List SurfaceFoldReplacement}
    (hnext : foldSurfaceState (log ++ [event]) projections = .ok acc') {seq : ℕ}
    (hmessage : messageAt projections log seq = some message) :
    ∃ message', messageAt projections (log ++ [event]) seq = some message' ∧
      Remarked message message' := by
  obtain ⟨acc, plan, hlog, hplan, rfl⟩ := foldSurfaceState_snoc_ok_iff.mp hnext
  unfold messageAt at hmessage ⊢
  rw [surfaceState_eq hlog] at hmessage
  rw [surfaceState_eq hnext]
  obtain ⟨source, hsource, hderived⟩ := Option.bind_eq_some_iff.mp hmessage
  have hlt := (List.getElem?_eq_some_iff.mp hsource).1
  have hseq := seq_of_getElem? hlog hsource
  rw [List.getElem?_append_left hlt, hsource, Option.bind_some]
  rcases projected_applySurfacePlan hprojections hlog hplan seq with
    hsame | ⟨source', message', projected, hsource', hderived', hmarked, hlookup⟩
  · refine ⟨message, ?_, Remarked.refl message⟩
    unfold deriveEventMessage at hderived ⊢
    rw [hseq] at hderived ⊢
    rw [hsame]
    exact hderived
  · rw [hsource, Option.some.injEq] at hsource'
    rw [← hsource', hderived, Option.some.injEq] at hderived'
    refine ⟨projected, ?_, hderived' ▸ hmarked⟩
    unfold deriveEventMessage
    rw [hseq, hlookup]

omit hprojections in
theorem Remarked.typed {message' : Json} (h : Remarked message message')
    (hcontent : message.get? "content" = some (.arr blocks)) :
    message'.get? "content" = some (.arr (contentOf message')) ∧
      (contentOf message').length = blocks.length := by
  have hblocks : contentOf message = blocks := by simp [contentOf, hcontent, Json.arr?]
  exact ⟨h.content blocks hcontent, by rw [← hblocks, h.blocks.length_eq]⟩

theorem contentTyped_of_events (hlog : foldSurfaceState log projections = .ok acc)
    (htyped : ContentTyped log []) : ContentTyped log acc.1.projectedMessages := by
  revert htyped
  refine foldSurfaceState_induction (motive := fun log acc => ContentTyped log [] →
    ContentTyped log acc.1.projectedMessages) ?_ ?_ hlog
  · intro _ event hevent
    cases hevent
  · intro log event acc plan hacc ih hplan hcontent source hsource hinput
    have hnext := foldSurfaceState_snoc_ok_iff.mpr ⟨acc, plan, hacc, hplan, rfl⟩
    rcases List.mem_append.mp hsource with hold | hnew
    · obtain ⟨message, blocks, hderived, htyped, hlength⟩ :=
        ih (fun e he => hcontent e (List.mem_append_left _ he)) source hold hinput
      rcases projected_applySurfacePlan hprojections hacc hplan source.seq with
        hsame | ⟨source', message', projected, hsource', hderived', hmarked, hlookup⟩
      · refine ⟨message, blocks, ?_, htyped, hlength⟩
        unfold deriveEventMessage at hderived ⊢
        rw [hsame]
        exact hderived
      · rw [getElem?_seq_of_mem hacc hold, Option.some.injEq] at hsource'
        rw [← hsource', hderived, Option.some.injEq] at hderived'
        obtain ⟨htyped', hlength'⟩ := hmarked.typed (hderived' ▸ htyped)
        refine ⟨projected, _, ?_, htyped', by omega⟩
        unfold deriveEventMessage
        rw [hlookup]
    · rw [List.mem_singleton.mp hnew] at hinput ⊢
      obtain ⟨message, blocks, hderived, htyped, hlength⟩ :=
        hcontent event (List.mem_append_right _ (List.mem_singleton_self _)) hinput
      refine ⟨message, blocks, ?_, htyped, hlength⟩
      have hseq : event.seq = log.length := (planSurfaceEvent_cases hplan).1
      have hnone : (applySurfacePlan acc.1 plan).1.projectedMessages.lookup event.seq = none := by
        rcases projected_applySurfacePlan hprojections hacc hplan event.seq with
          hsame | ⟨source', _, _, hsource', -⟩
        · rw [hsame]
          refine OrderedMap.lookup_eq_none fun hmem => ?_
          have hcurrent := currentProjections_of_imageOffload hprojections
          have hlt := projected_lt_length hcurrent hacc _ hmem
          omega
        · have hlt := (List.getElem?_eq_some_iff.mp hsource').1
          omega
      unfold deriveEventMessage at hderived ⊢
      rw [hnone]
      exact hderived

end Append

/-! ## One call -/

/-- The retained images of some nodes of a log, in order. -/
def retainedImages (projections : List SessionMessageProjection) (log : List SessionEvent)
    (seqs : List ℕ) : List (ℕ × ℕ) :=
  retainedIn log (surfaceState projections log).projectedMessages seqs

/-- Exactly the chosen images of some nodes have become offloaded. -/
structure Omitted (projections : List SessionMessageProjection) (s s' : Attached)
    (event : SessionEvent) (seqs : List ℕ) (count : ℕ) : Prop where
  log : s'.log = s.log ++ [event]
  replays : s'.Replays projections
  nodes : (surfaceState projections s'.log).nodes = (surfaceState projections s.log).nodes
  messages : ∀ seq, messageAt projections s'.log seq =
    (messageAt projections s.log seq).map
      (withOffloaded (placesAt ((retainedImages projections s.log seqs).take count) seq))
  left : retainedImages projections s'.log seqs =
    (retainedImages projections s.log seqs).drop count

/-- What one call does: nothing when no image is left, and otherwise one decision, which the
projection accepts and which lands unless a listener refuses it. -/
structure OffloadOutcome (projections : List SessionMessageProjection) (env : Surroundings)
    (s : Attached) (seqs : List ℕ) (count : ℕ) : Prop where
  idle : retainedImages projections s.log seqs = [] →
    offloadOldestImages projections env s seqs count = (s, .ok false)
  acts : retainedImages projections s.log seqs ≠ [] → ∃ event,
    event.type = .imageOffload ∧
    (∃ messages, imageOffloadProjection.project event
      (projectionContext (surfaceState projections s.log) s.log 0) = .ok messages) ∧
    ((∃ message, env.refuse event = some message ∧
        offloadOldestImages projections env s seqs count = (s, .error message)) ∨
      env.refuse event = none ∧ ∃ s', Omitted projections s s' event seqs count ∧
        offloadOldestImages projections env s seqs count = (s', .ok true))

/-- An append of a decision that the projection accepts. -/
theorem appendIn_offload (hprojections : ∀ p ∈ projections, p = imageOffloadProjection)
    (hregistered : imageOffloadProjection ∈ projections) {s : Attached} (env : Surroundings)
    {data : Json} (hevent : event = s.candidate
      { type := .imageOffload, data := data, time := env.now s.log.length })
    (hproject : imageOffloadProjection.project event
      (projectionContext (surfaceState projections s.log) s.log 0) = .ok messages) :
    planSurfaceEvent (surfaceState projections s.log) event s.log.length s.log 0 projections =
        .ok (some (.project imageOffloadProjection.toProjectionRef messages)) ∧
      s.appendIn projections env .imageOffload data none none =
        match env.refuse event with
        | some message => .error message
        | none => .ok ⟨s.log ++ [event], s.trace.commit event none⟩ := by
  have hfind : projections.find? (fun item => item.type == .imageOffload) =
      some imageOffloadProjection := by
    cases hfound : projections.find? (fun item => item.type == .imageOffload) with
    | none =>
      have hnone := List.find?_eq_none.mp hfound _ hregistered
      exact absurd rfl hnone
    | some projection => rw [hprojections projection (List.mem_of_find?_eq_some hfound)]
  have hplan : planSurfaceEvent (surfaceState projections s.log) event s.log.length s.log 0
      projections = .ok (some (.project imageOffloadProjection.toProjectionRef messages)) := by
    have hop : surfaceOpOf event = .ok none := by
      subst hevent
      rfl
    have hmetadata : validateSurfaceMetadata event = .ok none := by
      rw [validateSurfaceMetadata, hop]
      rfl
    have hdeveloper : assertDeveloperHeader event s.log 0 = .ok () := by
      subst hevent
      rfl
    have htype : event.type = .imageOffload := by rw [hevent]; rfl
    have hseq : event.seq = s.log.length := by rw [hevent]; rfl
    unfold planSurfaceEvent
    rw [projectionContext] at hproject
    simp only [hseq, hmetadata, hdeveloper, htype, hfind, hproject, ok_bind, ne_eq,
      not_true_eq_false, if_false]
    rfl
  refine ⟨hplan, ?_⟩
  have hdata : validateSessionEventData event
      s!"session event \"{EventType.imageOffload.name}\" at seq {s.log.length}" = .ok () := by
    subst hevent
    rfl
  have htrace : s.trace.accept projections event = .ok (s.trace.commit event none) := by
    subst hevent
    rfl
  unfold Attached.appendIn Attached.append
  simp only [← hevent]
  have hsame : s.candidate
      { type := .imageOffload
        data := data
        time := env.now s.log.length
        dispatchFailure := env.refuse event } = event := hevent.symm
  rw [hsame, hdata, ok_bind, hplan, ok_bind, htrace, ok_bind]
  cases env.refuse event <;> rfl

/-- When every message loses its chosen places, the first images are gone. -/
theorem flatMap_drop {seqs : List ℕ} (hdistinct : seqs.Nodup) {own own' : ℕ → List ℕ}
    {count : ℕ} (hown : ∀ seq ∈ seqs, ∀ k,
      placesAt ((seqs.flatMap fun seq => (own seq).map fun place => (seq, place)).take count) seq =
        (own seq).take k → own' seq = (own seq).drop k) :
    (seqs.flatMap fun seq => (own' seq).map fun place => (seq, place)) =
      (seqs.flatMap fun seq => (own seq).map fun place => (seq, place)).drop count := by
  induction seqs generalizing count with
  | nil => simp
  | cons seq seqs ih =>
    rw [List.nodup_cons] at hdistinct
    have hfst : ∀ n, ∀ image ∈ (seqs.flatMap fun seq =>
        (own seq).map fun place => (seq, place)).take n, image.1 ∈ seqs := by
      intro n image himage
      obtain ⟨other, hother, hplace⟩ := List.mem_flatMap.mp (List.mem_of_mem_take himage)
      obtain ⟨place, -, rfl⟩ := List.mem_map.mp hplace
      exact hother
    simp only [List.flatMap_cons, List.take_append, List.length_map, ← List.map_take] at hown
    rw [List.flatMap_cons, List.flatMap_cons, List.drop_append, List.length_map, ← List.map_drop]
    have hself : own' seq = (own seq).drop count := by
      refine hown seq List.mem_cons_self count ?_
      rw [placesAt_append, placesAt_own, placesAt_other, List.append_nil]
      intro image himage heq
      exact hdistinct.1 (heq ▸ hfst _ image himage)
    rw [hself, ih hdistinct.2]
    intro other hother k hplaces
    refine hown other (List.mem_cons_of_mem _ hother) k ?_
    rw [placesAt_append, placesAt_other, List.nil_append, hplaces]
    intro image himage heq
    obtain ⟨place, -, rfl⟩ := List.mem_map.mp himage
    have hsame : seq = other := heq
    exact hdistinct.1 (hsame ▸ hother)

/-- A message loses the images that are marked in it. -/
theorem places_withOffloaded (k : ℕ) (hcontent : message.get? "content" = some (.arr blocks)) :
    places isRetained 0
        (contentOf (withOffloaded ((places isRetained 0 blocks).take k) message)) =
      (places isRetained 0 blocks).drop k := by
  have hblocks : contentOf message = blocks := by simp [contentOf, hcontent, Json.arr?]
  by_cases hnone : (places isRetained 0 blocks).take k = []
  · rw [hnone, withOffloaded, if_pos rfl, hblocks]
    rcases List.take_eq_nil_iff.mp hnone with rfl | hnil
    · rfl
    · rw [hnil, List.drop_nil]
  · rw [withOffloaded_places hcontent hnone]
    have hput : contentOf (message.put "content"
        (.arr (mapFirst isRetained offloaded k blocks))) =
        mapFirst isRetained offloaded k blocks := by simp [contentOf, Json.arr?]
    rw [hput, places_mapFirst fun block _ => isRetained_offloaded block]

variable {env : Surroundings} {s : Attached} {seqs : List ℕ} {count : ℕ}

theorem omitted_of_targets (hprojections : ∀ p ∈ projections, p = imageOffloadProjection)
    {s' : Attached} (hacc : foldSurfaceState s.log projections = .ok acc)
    (hcontent : ContentTyped s.log acc.1.projectedMessages) (hlog : s'.log = s.log ++ [event])
    (htype : event.type = .imageOffload)
    (hplan : planSurfaceEvent acc.1 event s.log.length s.log 0 projections =
      .ok (some (.project imageOffloadProjection.toProjectionRef messages)))
    (hproject : imageOffloadProjection.project event (projectionContext acc.1 s.log 0) =
      .ok messages) (hmessages : ∀ seq, messages.lookup seq =
      if placesAt ((retainedImages projections s.log seqs).take count) seq = [] then none
      else (messageAt projections s.log seq).map
        (withOffloaded (placesAt ((retainedImages projections s.log seqs).take count) seq)))
    (hdistinct : seqs.Nodup) (hlt : ∀ seq ∈ seqs, seq < s.log.length) :
    Omitted projections s s' event seqs count := by
  have hnext := foldSurfaceState_snoc_ok_iff.mpr ⟨acc, _, hacc, hplan, rfl⟩
  rw [← hlog] at hnext
  have hstate := surfaceState_eq hacc
  have hstate' := surfaceState_eq hnext
  have hlookup : ∀ seq, (surfaceState projections s'.log).projectedMessages.lookup seq =
      (messages.lookup seq).or (acc.1.projectedMessages.lookup seq) := by
    intro seq
    rw [hstate']
    exact lookup_set_all (keys_imageOffloadMessages hproject).1 _ seq
  have hkept : ∀ seq, messageAt projections s'.log seq = (messageAt projections s.log seq).map
      (withOffloaded (placesAt ((retainedImages projections s.log seqs).take count) seq)) := by
    intro seq
    have hsplit := hlookup seq
    rw [hmessages seq] at hsplit
    by_cases hold : seq < s.log.length
    · have hsource : s.log[seq]? = some s.log[seq] := List.getElem?_eq_getElem hold
      have hseq : s.log[seq].seq = seq := seq_of_foldSurfaceState hacc seq hold
      have hsame : messageAt projections s'.log seq =
          deriveEventMessage s.log[seq] (surfaceState projections s'.log).projectedMessages := by
        rw [messageAt, hlog, List.getElem?_append_left hold, hsource, Option.bind_some]
      have hderived : messageAt projections s.log seq =
          deriveEventMessage s.log[seq] acc.1.projectedMessages := by
        rw [messageAt, hsource, Option.bind_some, hstate]
      by_cases hnone : placesAt ((retainedImages projections s.log seqs).take count) seq = []
      · rw [if_pos hnone, Option.none_or] at hsplit
        have hid : withOffloaded [] = id := by
          funext message
          simp [withOffloaded]
        rw [hsame, hnone, hid, Option.map_id, id_eq, hderived]
        unfold deriveEventMessage
        rw [hseq, hsplit]
      · rw [if_neg hnone] at hsplit
        rw [hsame]
        cases hmessage : messageAt projections s.log seq with
        | none =>
          rw [hmessage, Option.map_none, Option.none_or] at hsplit
          rw [hderived] at hmessage
          rw [Option.map_none, ← hmessage]
          unfold deriveEventMessage
          rw [hseq, hsplit]
        | some message =>
          rw [hmessage, Option.map_some, Option.some_or] at hsplit
          rw [Option.map_some]
          unfold deriveEventMessage
          rw [hseq, hsplit]
    · have hgone : messageAt projections s.log seq = none := by
        rw [messageAt, List.getElem?_eq_none (by omega)]
        rfl
      rw [hgone, Option.map_none]
      by_cases hlast : seq = s.log.length
      · have hseq : event.seq = seq := hlast ▸ (planSurfaceEvent_cases hplan).1
        have hcurrent := currentProjections_of_imageOffload hprojections
        have hmissing : acc.1.projectedMessages.lookup seq = none := by
          refine OrderedMap.lookup_eq_none fun hmem => ?_
          exact hold (projected_lt_length hcurrent hacc seq hmem)
        rw [hgone, hmissing, Option.map_none, ite_self, Option.none_or] at hsplit
        have hevent : s'.log[seq]? = some event := by
          rw [hlog, hlast]
          exact List.getElem?_concat_length
        rw [messageAt, hevent, Option.bind_some, deriveEventMessage, hseq, hsplit]
        simp only [htype]
      · have hbeyond : s'.log[seq]? = none := by
          rw [hlog]
          refine List.getElem?_eq_none ?_
          rw [List.length_append, List.length_singleton]
          omega
        rw [messageAt, hbeyond]
        rfl
  refine ⟨hlog, ⟨_, hnext⟩, by rw [hstate', hstate]; rfl, hkept, ?_⟩
  refine flatMap_drop hdistinct fun seq hseq k hplaces => ?_
  have hold := hlt seq hseq
  have hsource : s.log[seq]? = some s.log[seq] := List.getElem?_eq_getElem hold
  have hsource' : s'.log[seq]? = some s.log[seq] := by
    rw [hlog, List.getElem?_append_left hold, hsource]
  by_cases hinput : s.log[seq].IsInput
  · obtain ⟨message, blocks, hderived, htyped, -⟩ :=
      hcontent s.log[seq] (List.getElem_mem hold) hinput
    have hmessage : messageAt projections s.log seq = some message := by
      rw [messageAt, hsource, Option.bind_some, hstate, hderived]
    have hown : retainedAt s.log (surfaceState projections s.log).projectedMessages seq =
        places isRetained 0 blocks := by
      rw [hstate]
      exact retainedAt_input hsource hinput hderived htyped
    have hmarked := hkept seq
    have hchosen : placesAt ((retainedImages projections s.log seqs).take count) seq =
        (places isRetained 0 blocks).take k := by
      rw [← hown]
      exact hplaces
    rw [hmessage, hchosen, Option.map_some, messageAt, hsource', Option.bind_some] at hmarked
    unfold SessionEvent.IsInput at hinput
    rw [hown, ← places_withOffloaded k htyped]
    simp only [retainedAt, hsource', if_pos hinput, hmarked, Option.getD_some]
  · unfold SessionEvent.IsInput at hinput
    simp only [retainedAt, hsource, hsource', if_neg hinput, List.drop_nil]

/-- One call omits exactly the first retained images of the nodes. -/
theorem offloadOldestImages_outcome (hprojections : ∀ p ∈ projections, p = imageOffloadProjection)
    (hregistered : imageOffloadProjection ∈ projections) (hs : s.Replays projections)
    (htyped : ContentTyped s.log []) (hdistinct : seqs.Nodup)
    (hnodes : ∀ seq ∈ seqs, seq ∈ (surfaceState projections s.log).nodes)
    (hsafe : ∀ seq ∈ seqs, seq ≤ Json.maxSafeInteger) (hcount : 0 < count) :
    OffloadOutcome projections env s seqs count := by
  obtain ⟨acc, hacc⟩ := hs
  have hstate := surfaceState_eq hacc
  have hlt : ∀ seq ∈ seqs, seq < s.log.length := by
    intro seq hseq
    have hnode := hnodes seq hseq
    rw [hstate] at hnode
    exact nodes_lt_length hacc seq hnode
  have hpositions : Positions s.log (projectionContext (surfaceState projections s.log) s.log 0)
      seqs := {
    events := rfl
    base := rfl
    node := hnodes
    event := fun seq hseq => ⟨_, List.getElem?_eq_getElem (hlt seq hseq),
      seq_of_foldSurfaceState hacc seq (hlt seq hseq)⟩
    safe := hsafe
    distinct := hdistinct }
  have hcontent : ContentTyped s.log (surfaceState projections s.log).projectedMessages := by
    rw [hstate]
    exact contentTyped_of_events hprojections hacc htyped
  obtain ⟨targets, hselect, htargets⟩ :=
    selectTargets_spec count [] hpositions hcontent fun _ _ => rfl
  have hchosen : targets = [] ↔ retainedImages projections s.log seqs = [] := by
    rw [htargets.nil, List.take_eq_nil_iff]
    constructor
    · rintro (hzero | hnil)
      · omega
      · exact hnil
    · exact .inr
  have hselect' : selectTargets s.log (surfaceState projections s.log).projectedMessages count
      seqs = .ok targets := hselect
  constructor
  · intro hnone
    rw [hchosen.mpr hnone] at hselect'
    simp only [offloadOldestImages, hselect']
  · intro hsome
    obtain ⟨messages, hfold, hlookup⟩ := htargets.projects
    obtain ⟨target, rest, rfl⟩ := List.exists_cons_of_ne_nil fun hnil => hsome (hchosen.mp hnil)
    have hproject : imageOffloadProjection.project
        (s.candidate { type := .imageOffload, data := offloadData (target :: rest),
                       time := env.now s.log.length })
        (projectionContext (surfaceState projections s.log) s.log 0) = .ok messages := hfold
    obtain ⟨hplan, happend⟩ := appendIn_offload hprojections hregistered env rfl hproject
    refine ⟨_, rfl, ⟨messages, hproject⟩, ?_⟩
    simp only [offloadOldestImages, hselect', happend]
    cases hrefuse : env.refuse (s.candidate { type := .imageOffload,
                                              data := offloadData (target :: rest),
                                              time := env.now s.log.length }) with
    | some message => exact .inl ⟨message, rfl, rfl⟩
    | none =>
      refine .inr ⟨rfl, _, ?_, rfl⟩
      rw [hstate] at hplan hproject hcontent
      exact omitted_of_targets hprojections hacc hcontent rfl rfl hplan hproject hlookup
        hdistinct hlt

end Compaction

end TianmaCoder
