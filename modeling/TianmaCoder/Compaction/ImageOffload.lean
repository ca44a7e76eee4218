import TianmaCoder.Compaction.Attached
import TianmaCoder.Tokens.Occupancy

/-!
# The image offload projection

The one message projection of the repository. An offload decision marks selected image
occurrences of current input messages; a mark does not change the heuristic price of a
message, so the prices of projected messages are those of the events they project.

## Main definitions

* `offloadMessageImages` — one message with the selected occurrences marked.
* `imageOffloadProjection` — the interpretation of `image/offload`.

## Main results

* `derivedTokens_eq` — a projected message costs what its event derives to.
-/

namespace TianmaCoder

open Checked

/-! ## Marking one message -/

/-- Mark a block when it is the next selected image, and count it when it is an image. -/
def visitBlock (imageIndex : ℕ) (indexes : List ℕ) (block : Json) :
    Except String (Json × ℕ × List ℕ) :=
  if block.get? "type" = some (.str "image") then
    if indexes.head? = some imageIndex then
      if block.get? "offloaded" = some (.bool true) then
        throw s!"image/offload: image index {imageIndex} is already offloaded"
      else pure (block.put "offloaded" (.bool true), imageIndex + 1, indexes.tail)
    else pure (block, imageIndex + 1, indexes)
  else pure (block, imageIndex, indexes)

/-- The marked blocks, and the selected indexes that no image had. -/
def visitBlocks (imageIndex : ℕ) (indexes : List ℕ) :
    List Json → Except String (List Json × List ℕ)
  | [] => pure ([], indexes)
  | block :: blocks => do
    let visited ← visitBlock imageIndex indexes block
    let rest ← visitBlocks visited.2.1 visited.2.2 blocks
    pure (visited.1 :: rest.1, rest.2)

/-- Project selected image occurrences to offloaded blocks. -/
def offloadMessageImages (message : Json) (indexes : List ℕ) : Except String Json := do
  let visited ← visitBlocks 0 indexes (contentOf message)
  match visited.2 with
  | index :: _ => throw s!"image/offload: image index {index} does not exist"
  | [] => pure (message.put "content" (.arr visited.1))

/-! ## The projection -/

/-- The position and the raw indexes of a well-formed target. -/
def offloadTarget? (target : Json) : Option (ℕ × List Json) :=
  match target with
  | .obj members =>
    match Json.count? (target.get? "seq"), target.get? "imageIndexes" with
    | some seq, some (.arr (index :: indexes)) =>
      if members.length = 2 then some (seq, index :: indexes) else none
    | _, _ => none
  | _ => none

/-- Admit strictly increasing occurrence indexes. -/
def imageIndexesOf (previous : ℤ) : List Json → Except String (List ℕ)
  | [] => pure []
  | index :: rest =>
    match Json.count? (some index) with
    | some n =>
      if (n : ℤ) ≤ previous then
        throw "image/offload: imageIndexes must be strictly increasing non-negative safe integers"
      else do
        let rest ← imageIndexesOf n rest
        pure (n :: rest)
    | none =>
      throw "image/offload: imageIndexes must be strictly increasing non-negative safe integers"

/-- The message of a target before the decision. -/
def offloadSource (context : SessionMessageProjectionContext) (source : SessionEvent) (seq : ℕ) :
    Option Json :=
  match context.messages.lookup seq with
  | some projected => some projected
  | none => if source.type = .userMessage then some source.data else source.field "message"

/-- Project one target of a decision. -/
def projectTarget (context : SessionMessageProjectionContext) (messages : OrderedMap ℕ Json)
    (target : Json) : Except String (OrderedMap ℕ Json) :=
  match offloadTarget? target with
  | none => throw "image/offload: each target must contain a seq and nonempty imageIndexes"
  | some (seq, rawIndexes) =>
    if (messages.lookup seq).isSome then throw s!"image/offload: duplicate target seq {seq}"
    else if seq ∉ context.nodes then
      throw s!"image/offload: target seq {seq} is not a current surface node"
    else
      match windowEvent context.events context.baseSeq seq with
      | none => throw s!"image/offload: target seq {seq} must be user/message or tool/result"
      | some source =>
        if source.type ≠ .userMessage ∧ source.type ≠ .toolResult then
          throw s!"image/offload: target seq {seq} must be user/message or tool/result"
        else do
          let indexes ← imageIndexesOf (-1) rawIndexes
          match offloadSource context source seq with
          | none => throw "Cannot read properties of undefined (reading 'content')"
          | some message =>
            let projected ← offloadMessageImages message indexes
            pure (OrderedMap.set seq projected messages)

/-- Project every target of a decision. -/
def imageOffloadMessages (event : SessionEvent) (context : SessionMessageProjectionContext) :
    Except String (OrderedMap ℕ Json) :=
  match event.data with
  | .obj [("targets", .arr (target :: targets))] =>
    (target :: targets).foldlM (projectTarget context) []
  | _ => throw "image/offload: data must contain a nonempty targets array"

/-- A window that is cut after a position still has its event. -/
theorem windowEvent_take {events : List SessionEvent} {baseSeq seq n : ℕ} (h : seq < n) :
    windowEvent (events.take (n - baseSeq)) baseSeq seq = windowEvent events baseSeq seq := by
  unfold windowEvent
  by_cases hbase : seq < baseSeq
  · simp only [hbase, if_true]
  · have hlt : seq - baseSeq < n - baseSeq := by omega
    simp only [hbase, if_false, List.getElem?_take, hlt, if_true]

/-- Every target is a current node, so the projection reads committed history only. -/
theorem projectTarget_before {context : SessionMessageProjectionContext} {n : ℕ}
    (h : ∀ seq ∈ context.nodes, seq < n) (messages : OrderedMap ℕ Json) (target : Json) :
    projectTarget (context.before n) messages target = projectTarget context messages target := by
  unfold projectTarget
  cases offloadTarget? target with
  | none => rfl
  | some admitted =>
    obtain ⟨seq, rawIndexes⟩ := admitted
    simp only [SessionMessageProjectionContext.before]
    by_cases hnode : seq ∈ context.nodes
    · rw [windowEvent_take (h seq hnode)]
      rfl
    · simp only [hnode, not_false_eq_true, if_true]

/-- The pure replay definition of `image/offload`. -/
def imageOffloadProjection : SessionMessageProjection where
  id := 0
  type := .imageOffload
  project := imageOffloadMessages
  project_before := by
    intro event context hnodes
    have hsame : projectTarget (context.before event.seq) = projectTarget context := by
      funext messages target
      exact projectTarget_before hnodes messages target
    unfold imageOffloadMessages
    rw [hsame]

theorem declared_of_imageOffload {projections : List SessionMessageProjection}
    (h : ∀ p ∈ projections, p = imageOffloadProjection) : DeclaredProjections projections := by
  intro projection hprojection
  rw [h projection hprojection]
  rfl

/-! ## Prices of projected messages -/

section Prices

variable [NumberText]

/-- An offload mark does not change the price of an image. -/
theorem estimateBlock_offloaded {block : Json} (h : block.get? "type" = some (.str "image"))
    (mark : Json) : estimateBlock (block.put "offloaded" mark) = estimateBlock block := by
  have htype : (block.put "offloaded" mark).get? "type" = some (.str "image") := by
    rw [Json.get?_put, if_neg (by decide), h]
  have herase : (block.put "offloaded" mark).erase "offloaded" = block.erase "offloaded" := by
    cases block with
    | obj members => exact congrArg Json.obj (OrderedMap.delete_set _ _ members)
    | _ => cases h
  simp [estimateBlock, estimateStructuralBlock, htype, h, herase]

variable {indexes : List ℕ}

theorem estimateBlock_visitBlock {imageIndex : ℕ} {block : Json} {visited : Json × ℕ × List ℕ}
    (h : visitBlock imageIndex indexes block = .ok visited) :
    estimateBlock visited.1 = estimateBlock block := by
  unfold visitBlock at h
  split at h
  · next himage =>
      split at h
      · split at h
        · cases h
        · cases h
          exact estimateBlock_offloaded himage _
      · cases h
        rfl
  · cases h
    rfl

theorem estimateContent_visitBlocks {imageIndex : ℕ} {blocks : List Json}
    {visited : List Json × List ℕ} (h : visitBlocks imageIndex indexes blocks = .ok visited) :
    estimateContent visited.1 = estimateContent blocks := by
  induction blocks generalizing imageIndex indexes visited with
  | nil =>
    cases h
    rfl
  | cons block blocks ih =>
    obtain ⟨first, hfirst, h⟩ := bind_ok h
    obtain ⟨rest, hrest, h⟩ := bind_ok h
    cases h
    have hblock := estimateBlock_visitBlock hfirst
    have hblocks := ih hrest
    simp only [estimateContent, List.map_cons, List.sum_cons] at hblocks ⊢
    rw [hblock, hblocks]

theorem estimateMessage_offloadMessageImages {message projected : Json}
    (h : offloadMessageImages message indexes = .ok projected)
    (hrole : message.get? "role" ≠ some (.str "system")) :
    estimateMessage projected = estimateMessage message ∧
      projected.get? "role" = message.get? "role" := by
  obtain ⟨visited, hvisited, h⟩ := bind_ok h
  split at h
  · cases h
  · cases h
    have hsame : (message.put "content" (.arr visited.1)).get? "role" = message.get? "role" := by
      rw [Json.get?_put, if_neg (by decide)]
    have hcontent : contentOf (message.put "content" (.arr visited.1)) = visited.1 := by
      simp [contentOf, Json.arr?]
    refine ⟨?_, hsame⟩
    unfold estimateMessage
    rw [hsame, if_neg hrole, if_neg hrole, hcontent, estimateContent_visitBlocks hvisited]

end Prices

/-! ## Prices over a log -/

/-- The events whose messages a decision may mark. -/
def SessionEvent.IsInput (event : SessionEvent) : Prop :=
  event.type = .userMessage ∨ event.type = .toolResult

/-- The role that the type of an input event declares is not the system role. -/
def SessionEvent.RoleTyped (event : SessionEvent) : Prop :=
  event.IsInput → ∀ message, deriveEventMessage event [] = some message →
    message.get? "role" ≠ some (.str "system")

variable [NumberText]

/-- A projected message of a log is an input message at the price of its event. -/
structure ProjectedPrice (log : List SessionEvent) (entry : ℕ × Json) : Prop where
  source : ∃ event, log[entry.1]? = some event ∧ event.IsInput ∧
    estimateMessage entry.2 = messageTokens event
  role : entry.2.get? "role" ≠ some (.str "system")

variable {log : List SessionEvent}

theorem ProjectedPrice.mono {entry : ℕ × Json} (h : ProjectedPrice log entry)
    (rest : List SessionEvent) : ProjectedPrice (log ++ rest) entry := by
  obtain ⟨event, hevent, hrest⟩ := h.source
  refine ⟨⟨event, ?_, hrest⟩, h.role⟩
  rw [List.getElem?_append_left (List.getElem?_eq_some_iff.mp hevent).1]
  exact hevent

omit [NumberText] in
theorem deriveEventMessage_of_isInput {event : SessionEvent} (h : event.IsInput) :
    deriveEventMessage event []
      = if event.type = .userMessage then some event.data else event.field "message" := by
  rcases h with htype | htype <;> simp [deriveEventMessage, htype]

/-- One projected target has the price of its event. -/
theorem projectedPrice_projectTarget {context : SessionMessageProjectionContext}
    {messages messages' : OrderedMap ℕ Json} {target : Json}
    (htyped : ∀ event ∈ log, event.RoleTyped) (hevents : context.events = log)
    (hbase : context.baseSeq = 0) (hcontext : ∀ entry ∈ context.messages, ProjectedPrice log entry)
    (hmessages : ∀ entry ∈ messages, ProjectedPrice log entry)
    (h : projectTarget context messages target = .ok messages') :
    ∀ entry ∈ messages', ProjectedPrice log entry := by
  unfold projectTarget at h
  cases hadmitted : offloadTarget? target with
  | none => simp [hadmitted] at h
  | some admitted =>
    obtain ⟨seq, rawIndexes⟩ := admitted
    simp only [hadmitted] at h
    split at h
    · cases h
    · split at h
      · cases h
      · split at h
        · cases h
        · next source hsource =>
            split at h
            · cases h
            · next htype =>
                obtain ⟨indexes, -, h⟩ := bind_ok h
                split at h
                · cases h
                · next message hmessage =>
                    obtain ⟨projected, hprojected, h⟩ := bind_ok h
                    cases h
                    rw [hevents, hbase, windowEvent_zero] at hsource
                    have hinput : source.IsInput := by
                      unfold SessionEvent.IsInput
                      by_contra hnot
                      push Not at hnot
                      exact htype hnot
                    -- The message before the decision has the price of its event.
                    have hprice : estimateMessage message = messageTokens source ∧
                        message.get? "role" ≠ some (.str "system") := by
                      unfold offloadSource at hmessage
                      cases hlookup : context.messages.lookup seq with
                      | some earlier =>
                        simp only [hlookup, Option.some.injEq] at hmessage
                        subst hmessage
                        have hentry := hcontext (seq, earlier) (OrderedMap.mem_of_lookup hlookup)
                        obtain ⟨event, hevent, -, htokens⟩ := hentry.source
                        rw [hsource, Option.some.injEq] at hevent
                        exact ⟨hevent ▸ htokens, hentry.role⟩
                      | none =>
                        simp only [hlookup] at hmessage
                        rw [← deriveEventMessage_of_isInput hinput] at hmessage
                        refine ⟨?_, htyped source (List.mem_of_getElem? hsource) hinput message
                          hmessage⟩
                        unfold messageTokens
                        rw [hmessage]
                    obtain ⟨htokens, hrole⟩ :=
                      estimateMessage_offloadMessageImages hprojected hprice.2
                    intro entry hentry
                    rcases OrderedMap.mem_set hentry with rfl | hentry
                    · exact ⟨⟨source, hsource, hinput, htokens.trans hprice.1⟩, hrole ▸ hprice.2⟩
                    · exact hmessages entry hentry

variable {projections : List SessionMessageProjection}

theorem projectedPrice_of_foldSurfaceState
    (hprojections : ∀ p ∈ projections, p = imageOffloadProjection)
    {acc : SurfaceFoldState × List SurfaceFoldReplacement} (htyped : ∀ event ∈ log, event.RoleTyped)
    (hlog : foldSurfaceState log projections = .ok acc) :
    ∀ entry ∈ acc.1.projectedMessages, ProjectedPrice log entry := by
  refine foldSurfaceState_induction
    (motive := fun log acc => (∀ event ∈ log, event.RoleTyped) →
      ∀ entry ∈ acc.1.projectedMessages, ProjectedPrice log entry) ?_ ?_ hlog htyped
  · intro _ entry hentry
    cases hentry
  · intro log event acc plan _ ih hplan htyped entry hentry
    have hlog : ∀ event ∈ log, event.RoleTyped :=
      fun e he => htyped e (List.mem_append_left _ he)
    obtain ⟨-, -, op, -, hcase⟩ := planSurfaceEvent_cases hplan
    rcases hcase with ⟨projection, messages, hfind, hproject, rfl⟩ | ⟨-, -, hmove⟩
    · have hsame := hprojections projection (List.mem_of_find?_eq_some hfind)
      rw [hsame] at hproject
      have hmessages : ∀ entry ∈ messages, ProjectedPrice log entry := by
        unfold imageOffloadProjection imageOffloadMessages at hproject
        simp only at hproject
        split at hproject
        · refine foldlM_induction
            (motive := fun _ messages => ∀ entry ∈ messages, ProjectedPrice log entry) hproject
            (fun entry h => by cases h) ?_
          intro _ target before after _ hbefore hstep
          exact projectedPrice_projectTarget hlog rfl rfl (ih hlog) hbefore hstep
        · cases hproject
      -- Every entry is an earlier one or one of the decision.
      have hall : ∀ (entries : OrderedMap ℕ Json) (state : OrderedMap ℕ Json),
          (∀ entry ∈ entries, ProjectedPrice log entry) →
          (∀ entry ∈ state, ProjectedPrice log entry) →
          ∀ entry ∈ entries.foldl (fun m e => OrderedMap.set e.1 e.2 m) state,
            ProjectedPrice log entry := by
        intro entries
        induction entries with
        | nil => intro state _ hstate entry hentry; exact hstate entry hentry
        | cons first entries ihentries =>
          intro state hentries hstate
          refine ihentries _ (fun e he => hentries e (List.mem_cons_of_mem _ he)) ?_
          intro e he
          rcases OrderedMap.mem_set he with rfl | he
          · exact hentries _ (by simp)
          · exact hstate e he
      exact (hall messages acc.1.projectedMessages hmessages (ih hlog) entry hentry).mono _
    · have hkept : (applySurfacePlan acc.1 plan).1.projectedMessages
          = acc.1.projectedMessages := by
        cases hmove <;> rfl
      rw [hkept] at hentry
      exact (ih hlog entry hentry).mono _

/-- The price of the message that the session derives for a position. -/
def derivedTokens (projections : List SessionMessageProjection) (log : List SessionEvent)
    (seq : ℕ) : ℕ :=
  match log[seq]? with
  | none => 0
  | some event =>
    match deriveEventMessage event (surfaceState projections log).projectedMessages with
    | none => 0
    | some message => estimateMessage message

/-- A derived message costs what its event derives to on its own. -/
theorem derivedTokens_eq (hprojections : ∀ p ∈ projections, p = imageOffloadProjection)
    {acc : SurfaceFoldState × List SurfaceFoldReplacement} (htyped : ∀ event ∈ log, event.RoleTyped)
    (hlog : foldSurfaceState log projections = .ok acc) (seq : ℕ) :
    derivedTokens projections log seq = priceAt log seq := by
  unfold derivedTokens priceAt
  cases hevent : log[seq]? with
  | none => rfl
  | some event =>
    obtain ⟨hlt, hget⟩ := List.getElem?_eq_some_iff.mp hevent
    have hseq : event.seq = seq := hget ▸ seq_of_foldSurfaceState hlog seq hlt
    simp only [surfaceState_eq hlog, Option.map_some, Option.getD_some]
    cases hlookup : acc.1.projectedMessages.lookup event.seq with
    | none =>
      have hpure : deriveEventMessage event acc.1.projectedMessages
          = deriveEventMessage event [] := by
        simp [deriveEventMessage, hlookup]
      rw [hpure]
      rfl
    | some message =>
      have hderived : deriveEventMessage event acc.1.projectedMessages = some message := by
        simp [deriveEventMessage, hlookup]
      have hentry := projectedPrice_of_foldSurfaceState hprojections htyped hlog _
        (OrderedMap.mem_of_lookup hlookup)
      obtain ⟨source, hsource, -, htokens⟩ := hentry.source
      simp only [hseq, hevent, Option.some.injEq] at hsource
      rw [hderived, hsource]
      exact htokens

end TianmaCoder
