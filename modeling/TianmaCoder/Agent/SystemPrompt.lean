import TianmaCoder.Agent.RuntimeContext

/-!
# The system prompt on the surface

The first system prompt takes node 0. A capable route reads a later prompt as the effective one,
so a changed prompt is appended behind the history; otherwise the head is rewritten and the later
prompts are emptied, by one replacement of a single node each.

## Main definitions

* `systemNodes`, `project` — the prompts on a surface, and the planned commits.
* `appendCommits` — the commits in order.
* `Reconciled` — what the commits make of the surface.

## Main results

* `appendCommits_replace` — replacements of single nodes, one after another.
* `prompt_reconciled` — the commits reach the rendered prompt.
-/

namespace TianmaCoder

namespace SystemPrompt

open Checked

/-! ## The projection -/

/-- A surviving `system/message` node. -/
structure SystemNode where
  seq : ℕ
  text : Option String
  deriving DecidableEq

/-- The text of a prompt; empty content records no prompt. -/
def promptText (event : SessionEvent) : Option String :=
  if event.messageContent.length = 0 then some ""
  else RuntimeContext.textOf ((event.field "message").getD .null)

/-- The prompt at a node, if a system message is there. -/
def promptAt (log : List SessionEvent) (seq : ℕ) : Option (Option String) :=
  match log[seq]? with
  | some event => if event.type = .systemMessage then some (promptText event) else none
  | none => none

/-- The surviving `system/message` nodes in surface order. -/
def systemNodes (nodes : List ℕ) (log : List SessionEvent) : List SystemNode :=
  nodes.filterMap fun seq => (promptAt log seq).map (SystemNode.mk seq)

/-- The request-series facts one prompt decision is made under. -/
structure SystemPromptDecisionInput where
  inHistory : Bool
  startsSeries : Bool
  deriving DecidableEq

/-- How a commit enters the surface. -/
inductive Intent where
  | append
  | replace (seq : ℕ)
  deriving DecidableEq

/-- One uncommitted system-prompt surface operation, by the text of its message. -/
structure SystemPromptCommit where
  text : String
  intent : Intent
  deriving DecidableEq

/-- The last node with a text, or else the head. -/
def latestOf (head : SystemNode) (nodes : List SystemNode) : SystemNode :=
  (nodes.reverse.find? fun node => node.text ≠ some "").getD head

/-- Reconcile effective text and retained nodes with the prepared route and series. -/
def project (nodes : List SystemNode) (rendered : String) (input : SystemPromptDecisionInput) :
    List SystemPromptCommit :=
  match nodes with
  | [] => [⟨rendered, .append⟩]
  | head :: later =>
    let latest := latestOf head (head :: later)
    if !input.inHistory || input.startsSeries || rendered = "" then
      let updates := (later.filter fun node => node.text ≠ some "").map fun node =>
        ⟨"", .replace node.seq⟩
      if head.text ≠ some rendered then updates ++ [⟨rendered, .replace head.seq⟩] else updates
    else if latest.text = some rendered then []
    else [⟨rendered, .append⟩]

/-! ## Committing -/

/-- `createSystemMessage(text)` under a fresh id. -/
def createSystemMessage (id text : String) : Json :=
  .obj [("role", .str "system"),
    ("content", .arr (if text = "" then [] else [.obj [("type", .str "text"), ("text", .str text)]])),
    ("source", .obj [("kind", .str "system-prompt")]), ("id", .str id)]

/-- What the loop puts on an event besides the commit. -/
structure Stamp where
  id : String
  turn : ℕ
  step : ℕ
  time : ℤ

/-- The `system/message` event of a commit. -/
def commitEvent (stamp : Stamp) (seq : ℕ) (commit : SystemPromptCommit) : SessionEvent where
  type := .systemMessage
  seq := seq
  time := stamp.time
  data := .obj [("turn", .nat stamp.turn), ("step", .nat stamp.step),
    ("message", createSystemMessage stamp.id commit.text)]
  surfaceOp :=
    match commit.intent with
    | .append => some (.str "append")
    | .replace seq =>
      some (.obj [("op", .str "replace"), ("startSeq", .nat seq), ("endSeq", .nat seq)])
  sourceEventSeqs :=
    match commit.intent with
    | .append => none
    | .replace seq => some (.arr [.nat seq])

/-- The log after the commits, in order. -/
def appendCommits (stamps : ℕ → Stamp) (log : List SessionEvent)
    (commits : List SystemPromptCommit) : List SessionEvent :=
  commits.foldl (fun log commit => log ++ [commitEvent (stamps log.length) log.length commit]) log

/-! ## One commit -/

variable {log : List SessionEvent} {stamp : Stamp} {stamps : ℕ → Stamp} {text : String}
  {projections : List SessionMessageProjection}
  {acc : SurfaceFoldState × List SurfaceFoldReplacement}

theorem promptText_commitEvent (stamp : Stamp) (seq : ℕ) (commit : SystemPromptCommit) :
    promptText (commitEvent stamp seq commit) = some commit.text := by
  by_cases htext : commit.text = ""
  · have hcontent : (commitEvent stamp seq commit).messageContent = [] := by
      simp [commitEvent, createSystemMessage, SessionEvent.messageContent, Json.path, htext,
        Json.arr?]
    simp [promptText, hcontent, htext]
  · have hcontent : (commitEvent stamp seq commit).messageContent
        = [.obj [("type", .str "text"), ("text", .str commit.text)]] := by
      simp [commitEvent, createSystemMessage, SessionEvent.messageContent, Json.path, htext,
        Json.arr?]
    simp only [promptText, hcontent]
    simp [commitEvent, createSystemMessage, SessionEvent.field, RuntimeContext.textOf, contentOf,
      htext, Json.arr?, Json.str?]

/-- The prompts of the earlier nodes stay, and the new node has the text of the commit. -/
theorem promptAt_snoc (event : SessionEvent) (seq : ℕ) :
    promptAt (log ++ [event]) seq
      = if seq = log.length then
          if event.type = .systemMessage then some (promptText event) else none
        else promptAt log seq := by
  by_cases hseq : seq = log.length
  · rw [if_pos hseq, hseq, promptAt, List.getElem?_concat_length]
  · rw [if_neg hseq, promptAt, promptAt]
    by_cases hlt : seq < log.length
    · rw [List.getElem?_append_left hlt]
    · rw [List.getElem?_eq_none (by simp; omega), List.getElem?_eq_none (by omega)]

theorem plan_append (hdeclared : DeclaredProjections projections) (state : SurfaceFoldState)
    (n : ℕ) (text : String) :
    planSurfaceEvent state (commitEvent stamp n ⟨text, .append⟩) n log 0 projections
      = .ok (some (.append n)) := by
  have hmeta : validateSurfaceMetadata (commitEvent stamp n ⟨text, .append⟩)
      = .ok (some .append) := rfl
  have hheader : assertDeveloperHeader (commitEvent stamp n ⟨text, .append⟩) log 0 = .ok () := rfl
  have hfind : projections.find? (fun item => item.type == EventType.systemMessage) = none :=
    find?_eq_none_of_declared hdeclared rfl
  have htype : (commitEvent stamp n ⟨text, .append⟩).type = .systemMessage := rfl
  have hseq : (commitEvent stamp n ⟨text, .append⟩).seq = n := rfl
  simp [planSurfaceEvent, hmeta, hheader, htype, hfind, hseq, EventType.needsMessageProjection]

variable {seq : ℕ}

variable (log stamp) in
theorem plan_replace (hdeclared : DeclaredProjections projections) {state : SurfaceFoldState}
    {before after : List ℕ} {n : ℕ} (hnodes : state.nodes = before ++ seq :: after)
    (hfirst : seq ∉ before) (hlt : seq < n) (hsafe : seq ≤ Json.maxSafeInteger) (text : String) :
    ∃ replacement, replacement.seq = n ∧
      planSurfaceEvent state (commitEvent stamp n ⟨text, .replace seq⟩) n log 0 projections
        = .ok (some (.replace replacement before.length before.length)) := by
  have hop : surfaceOpOf (commitEvent stamp n ⟨text, .replace seq⟩)
      = .ok (some (.replace seq seq)) := by
    simp [surfaceOpOf, commitEvent, replaceOp?, EventType.isSurfaceEligible, Json.count?_nat, hsafe]
  have hlate : ¬n ≤ seq := by omega
  have hsources : sourceEventSeqsOf (commitEvent stamp n ⟨text, .replace seq⟩) = .ok [seq] := by
    simp [sourceEventSeqsOf, commitEvent, Json.count?_nat, hsafe, hlate]
  have hseq : (commitEvent stamp n ⟨text, .replace seq⟩).seq = n := rfl
  have htype : (commitEvent stamp n ⟨text, .replace seq⟩).type = .systemMessage := rfl
  have hmeta : validateSurfaceMetadata (commitEvent stamp n ⟨text, .replace seq⟩)
      = .ok (some (.replace seq seq)) := by
    simp [validateSurfaceMetadata, hop, hseq, hlate, assertSourceEventReferences, hsources]
  have hheader : assertDeveloperHeader (commitEvent stamp n ⟨text, .replace seq⟩) log 0
      = .ok () := rfl
  have hfind : projections.find? (fun item => item.type == EventType.systemMessage) = none :=
    find?_eq_none_of_declared hdeclared rfl
  have hindex : state.nodes.idxOf? seq = some before.length := by
    rw [hnodes, List.idxOf?_eq_some_iff]
    refine ⟨by simp, by simp, ?_⟩
    intro j hj heq
    rw [List.getElem_append_left hj] at heq
    exact hfirst (heq ▸ List.getElem_mem hj)
  have hrange : replacementRange state.nodes seq seq
      = .ok ⟨before.length, before.length, [seq]⟩ := by
    have hshadowed : (state.nodes.take (before.length + 1)).drop before.length = [seq] := by
      simp [hnodes, List.take_append]
    simp [replacementRange, hindex, hshadowed]
  have hhead : assertSystemHeadRewrite (commitEvent stamp n ⟨text, .replace seq⟩) state.nodes
      before.length [seq] log 0 = .ok () := by
    unfold assertSystemHeadRewrite
    split
    · rfl
    · split
      · simp [htype]
      · rfl
  refine ⟨⟨n, seq, seq, [seq]⟩, rfl, ?_⟩
  simp [planSurfaceEvent, hmeta, hheader, htype, hfind, hseq, EventType.needsMessageProjection,
    hrange, assertSourceEventReferences, hsources, assertToolResultRewrite, hhead]

/-! ## Replacements of single nodes, one after another -/

/-- Where a node of the surface is after the commits, the first of them at `n`. -/
def placeAfter : ℕ → List SystemPromptCommit → ℕ → ℕ
  | _, [], seq => seq
  | n, commit :: rest, seq =>
    if commit.intent = .replace seq then n else placeAfter (n + 1) rest seq

/-- The text that the commits give a node. -/
def textAfter (commits : List SystemPromptCommit) (seq : ℕ) : Option String :=
  (commits.find? fun commit => commit.intent = .replace seq).map SystemPromptCommit.text

variable {commits : List SystemPromptCommit}

theorem placeAfter_of_untouched (n : ℕ) (h : textAfter commits seq = none) :
    placeAfter n commits seq = seq := by
  induction commits generalizing n with
  | nil => rfl
  | cons commit rest ih =>
    by_cases hcommit : commit.intent = .replace seq
    · simp [textAfter, hcommit] at h
    · rw [placeAfter, if_neg hcommit]
      exact ih (n + 1) (by simpa [textAfter, hcommit] using h)

theorem mem_of_textAfter (h : textAfter commits seq = some text) :
    ⟨text, .replace seq⟩ ∈ commits := by
  obtain ⟨commit, hfind, htext⟩ := Option.map_eq_some_iff.mp h
  have hintent : commit.intent = .replace seq := by simpa using List.find?_some hfind
  rw [← htext, ← hintent]
  exact List.mem_of_find?_eq_some hfind

theorem not_mem_of_textAfter (h : textAfter commits seq = none) (text : String) :
    ⟨text, .replace seq⟩ ∉ commits := by
  intro hmem
  have hfind := List.find?_eq_none.mp (Option.map_eq_none_iff.mp h) _ hmem
  simp at hfind

/-- The commits replace distinct nodes of the surface. -/
structure Replacements (nodes : List ℕ) (commits : List SystemPromptCommit) : Prop where
  targets : ∀ commit ∈ commits, ∃ seq ∈ nodes, commit.intent = .replace seq
  distinct : (commits.map SystemPromptCommit.intent).Nodup

variable {nodes : List ℕ}

theorem Replacements.take (h : Replacements nodes commits) (k : ℕ) :
    Replacements nodes (commits.take k) where
  targets commit hmem := h.targets commit (List.mem_of_mem_take hmem)
  distinct := by
    rw [List.map_take]
    exact h.distinct.sublist (List.take_sublist _ _)

/-- The nodes with `seq` moved to `n`. -/
def moveNode (seq n old : ℕ) : ℕ := if old = seq then n else old

theorem map_moveNode_of_not_mem {n : ℕ} (h : seq ∉ nodes) : nodes.map (moveNode seq n) = nodes := by
  rw [List.map_congr_left (g := id), List.map_id]
  intro old hold
  refine if_neg ?_
  rintro rfl
  exact h hold

/-- One replacement: the node moves to the end of the log, and the others stay. -/
theorem foldSurfaceState_replace (hdeclared : DeclaredProjections projections)
    (hlog : foldSurfaceState log projections = .ok acc) (hmem : seq ∈ acc.1.nodes)
    (hsafe : seq ≤ Json.maxSafeInteger) (stamp : Stamp) (text : String) :
    ∃ acc', foldSurfaceState (log ++ [commitEvent stamp log.length ⟨text, .replace seq⟩]) projections
        = .ok acc' ∧
      acc'.1.nodes = acc.1.nodes.map (moveNode seq log.length) := by
  obtain ⟨before, after, hnodes⟩ := List.append_of_mem hmem
  have hnodup := nodes_nodup hlog
  rw [hnodes, List.nodup_middle, List.nodup_cons, List.mem_append, not_or] at hnodup
  have hfirst := hnodup.1.1
  have hlast := hnodup.1.2
  have hlt := nodes_lt_length hlog seq hmem
  obtain ⟨replacement, hseq, hplan⟩ := plan_replace log stamp hdeclared hnodes
    hfirst hlt hsafe text
  refine ⟨_, foldSurfaceState_snoc_ok_iff.mpr ⟨acc, _, hlog, hplan, rfl⟩, ?_⟩
  have hsplice : (applySurfacePlan acc.1
      (some (.replace replacement before.length before.length))).1.nodes
        = before ++ log.length :: after := by
    simp [applySurfacePlan, spliceNode, hnodes, hseq]
  rw [hsplice, hnodes, List.map_append, List.map_cons, map_moveNode_of_not_mem hfirst,
    map_moveNode_of_not_mem hlast, moveNode, if_pos rfl]

theorem Replacements.tail {n : ℕ} {rest : List SystemPromptCommit}
    (h : Replacements nodes (⟨text, .replace seq⟩ :: rest)) :
    Replacements (nodes.map (moveNode seq n)) rest where
  targets commit hmem := by
    have hdistinct := List.nodup_cons.mp h.distinct
    obtain ⟨target, htarget, hintent⟩ := h.targets commit (List.mem_cons_of_mem _ hmem)
    have hne : target ≠ seq := by
      rintro rfl
      have hagain := List.mem_map_of_mem (f := SystemPromptCommit.intent) hmem
      exact hdistinct.1 (hintent ▸ hagain)
    exact ⟨target, List.mem_map.mpr ⟨target, htarget, if_neg hne⟩, hintent⟩
  distinct := (List.nodup_cons.mp h.distinct).2

/-- A node off the surface is not a target. -/
theorem Replacements.untouched (h : Replacements nodes commits) (hseq : seq ∉ nodes) :
    textAfter commits seq = none := by
  cases htext : textAfter commits seq with
  | none => rfl
  | some text =>
    obtain ⟨target, htarget, hintent⟩ := h.targets _ (mem_of_textAfter htext)
    simp only [Intent.replace.injEq] at hintent
    exact absurd (hintent ▸ htarget) hseq

variable (stamps) in
theorem appendCommits_replace (hdeclared : DeclaredProjections projections)
    (hlog : foldSurfaceState log projections = .ok acc)
    (hreplace : Replacements acc.1.nodes commits)
    (hsafe : ∀ seq, .replace seq ∈ commits.map SystemPromptCommit.intent →
      seq ≤ Json.maxSafeInteger) :
    ∃ acc', foldSurfaceState (appendCommits stamps log commits) projections = .ok acc' ∧
      acc'.1.nodes = acc.1.nodes.map (placeAfter log.length commits) ∧
      ∀ seq ∈ acc.1.nodes,
        promptAt (appendCommits stamps log commits) (placeAfter log.length commits seq)
          = ((textAfter commits seq).map some).or (promptAt log seq) := by
  induction commits generalizing log acc with
  | nil =>
    refine ⟨acc, hlog, ?_, ?_⟩
    · exact (List.map_id _).symm
    · intro seq hseq
      rfl
  | cons commit rest ih =>
    obtain ⟨target, htarget, hintent⟩ := hreplace.targets commit List.mem_cons_self
    obtain ⟨text, intent⟩ := commit
    subst hintent
    have hlt := nodes_lt_length hlog
    have hsafe₁ := hsafe target List.mem_cons_self
    obtain ⟨acc₁, hlog₁, hnodes₁⟩ := foldSurfaceState_replace hdeclared hlog htarget hsafe₁
      (stamps log.length) text
    have hrest : Replacements acc₁.1.nodes rest := by
      rw [hnodes₁]
      exact hreplace.tail
    obtain ⟨acc', hlog', hnodes', htexts⟩ := ih hlog₁ hrest
      (fun seq hmem => hsafe seq (List.mem_cons_of_mem _ hmem))
    rw [List.length_append, List.length_singleton] at hnodes' htexts
    have hfresh : textAfter rest log.length = none := by
      have hall : Replacements acc.1.nodes rest :=
        ⟨fun commit hmem => hreplace.targets commit (List.mem_cons_of_mem _ hmem),
          (List.nodup_cons.mp hreplace.distinct).2⟩
      refine hall.untouched ?_
      intro hmem
      exact absurd (hlt _ hmem) (Nat.lt_irrefl _)
    have hplace : ∀ seq, placeAfter (log.length + 1) rest (moveNode target log.length seq)
        = placeAfter log.length (⟨text, .replace target⟩ :: rest) seq := by
      intro seq
      by_cases hseq : seq = target
      · simp [placeAfter, moveNode, hseq, placeAfter_of_untouched _ hfresh]
      · simp [placeAfter, moveNode, hseq, Ne.symm hseq]
    refine ⟨acc', hlog', ?_, ?_⟩
    · rw [hnodes', hnodes₁, List.map_map]
      exact List.map_congr_left fun seq _ => hplace seq
    · intro seq hseq
      have hmoved : moveNode target log.length seq ∈ acc₁.1.nodes := by
        rw [hnodes₁]
        exact List.mem_map_of_mem hseq
      have htext := htexts _ hmoved
      rw [hplace, promptAt_snoc] at htext
      refine htext.trans ?_
      by_cases heq : seq = target
      · have htype : (commitEvent (stamps log.length) log.length
            ⟨text, .replace target⟩).type = .systemMessage := rfl
        have hmove : moveNode target log.length seq = log.length := if_pos heq
        have hfound : textAfter (⟨text, .replace target⟩ :: rest) seq = some text := by
          simp [textAfter, heq]
        rw [hmove, hfresh, if_pos rfl, if_pos htype, promptText_commitEvent, hfound]
        rfl
      · have hne : seq ≠ log.length := Nat.ne_of_lt (hlt seq hseq)
        simp [moveNode, heq, hne, textAfter, Ne.symm heq]

/-! ## What the commits make of the surface -/

/-- The nodes of the surface that are no system prompt. -/
def otherNodes (nodes : List ℕ) (log : List SessionEvent) : List ℕ :=
  nodes.filter fun seq => promptAt log seq = none

/-- The commits of one projection, appended in order, reach the rendered prompt. -/
structure Reconciled (projections : List SessionMessageProjection) (stamps : ℕ → Stamp)
    (log : List SessionEvent) (nodes : List ℕ) (rendered : String)
    (input : SystemPromptDecisionInput) : Prop where
  /-- Each commit is accepted, and the other nodes stay in their order. -/
  accepted : ∀ k, ∃ acc, foldSurfaceState (appendCommits stamps log
      ((project (systemNodes nodes log) rendered input).take k)) projections = .ok acc ∧
    otherNodes acc.1.nodes (appendCommits stamps log
      ((project (systemNodes nodes log) rendered input).take k)) = otherNodes nodes log
  /-- The effective prompt is the rendered one. -/
  effective : ∀ acc, foldSurfaceState (appendCommits stamps log
      (project (systemNodes nodes log) rendered input)) projections = .ok acc →
    ∃ head later, systemNodes acc.1.nodes (appendCommits stamps log
        (project (systemNodes nodes log) rendered input)) = head :: later ∧
      (latestOf head (head :: later)).text = some rendered ∧
      (!input.inHistory || input.startsSeries || rendered = "" →
        ∀ node ∈ later, node.text = some "")
  /-- A continuing series in history has nothing to add. -/
  settled : ∀ acc, foldSurfaceState (appendCommits stamps log
      (project (systemNodes nodes log) rendered input)) projections = .ok acc →
    project (systemNodes acc.1.nodes (appendCommits stamps log
      (project (systemNodes nodes log) rendered input))) rendered ⟨true, false⟩ = []

variable {head : SystemNode}

/-- When the effective text is empty, every prompt is. -/
theorem text_of_latestOf {node : SystemNode} {nodes : List SystemNode} (hmem : node ∈ nodes)
    (h : (latestOf head nodes).text = some "") : node.text = some "" := by
  cases hfind : nodes.reverse.find? (fun node => node.text ≠ some "") with
  | none =>
    have hnone := List.find?_eq_none.mp hfind node (List.mem_reverse.mpr hmem)
    simpa using hnone
  | some last =>
    have hlast := List.find?_some hfind
    rw [latestOf, hfind, Option.getD_some] at h
    simp [h] at hlast

variable {rendered : String} {later : List SystemNode}

/-- Once the effective prompt is the rendered one, a continuing series plans nothing. -/
theorem project_of_effective (heffective : (latestOf head (head :: later)).text = some rendered) :
    project (head :: later) rendered ⟨true, false⟩ = [] := by
  by_cases hrendered : rendered = ""
  · rw [hrendered] at heffective
    have hhead : head.text = some "" := text_of_latestOf List.mem_cons_self heffective
    have hlater : ∀ node ∈ later, node.text = some "" := fun node hnode =>
      text_of_latestOf (List.mem_cons_of_mem _ hnode) heffective
    simpa [project, hrendered, hhead] using hlater
  · simp [project, hrendered, heffective]

theorem foldSurfaceState_append (hdeclared : DeclaredProjections projections)
    (hlog : foldSurfaceState log projections = .ok acc) (stamp : Stamp) (text : String) :
    ∃ acc', foldSurfaceState (log ++ [commitEvent stamp log.length ⟨text, .append⟩]) projections
        = .ok acc' ∧
      acc'.1.nodes = acc.1.nodes ++ [log.length] :=
  ⟨_, foldSurfaceState_snoc_ok_iff.mpr
    ⟨acc, _, hlog, plan_append hdeclared acc.1 log.length text, rfl⟩, rfl⟩

theorem systemNodes_append (hlt : ∀ seq ∈ nodes, seq < log.length) (stamp : Stamp) (text : String) :
    systemNodes (nodes ++ [log.length])
        (log ++ [commitEvent stamp log.length ⟨text, .append⟩])
      = systemNodes nodes log ++ [⟨log.length, some text⟩] := by
  have htype : (commitEvent stamp log.length ⟨text, .append⟩).type = .systemMessage := rfl
  have hold : ∀ seq ∈ nodes,
      (promptAt (log ++ [commitEvent stamp log.length ⟨text, .append⟩]) seq).map (SystemNode.mk seq)
        = (promptAt log seq).map (SystemNode.mk seq) := by
    intro seq hseq
    rw [promptAt_snoc, if_neg (Nat.ne_of_lt (hlt seq hseq))]
  rw [systemNodes, List.filterMap_append, List.filterMap_congr hold, ← systemNodes]
  simp [promptAt_snoc, htype, promptText_commitEvent]

theorem otherNodes_append (hlt : ∀ seq ∈ nodes, seq < log.length) (stamp : Stamp) (text : String) :
    otherNodes (nodes ++ [log.length]) (log ++ [commitEvent stamp log.length ⟨text, .append⟩])
      = otherNodes nodes log := by
  have htype : (commitEvent stamp log.length ⟨text, .append⟩).type = .systemMessage := rfl
  have hold : ∀ seq ∈ nodes,
      decide (promptAt (log ++ [commitEvent stamp log.length ⟨text, .append⟩]) seq = none)
        = decide (promptAt log seq = none) := by
    intro seq hseq
    rw [promptAt_snoc, if_neg (Nat.ne_of_lt (hlt seq hseq))]
  rw [otherNodes, List.filter_append, List.filter_congr hold, ← otherNodes]
  simp [promptAt_snoc, htype]

/-! ## Rewriting the head and emptying the rest -/

variable {input : SystemPromptDecisionInput}

theorem mem_project_iff (hinput : !input.inHistory || input.startsSeries || rendered = "")
    (commit : SystemPromptCommit) :
    commit ∈ project (head :: later) rendered input ↔
      (∃ node ∈ later, node.text ≠ some "" ∧ commit = ⟨"", .replace node.seq⟩) ∨
        (head.text ≠ some rendered ∧ commit = ⟨rendered, .replace head.seq⟩) := by
  have hupdates : commit ∈ ((later.filter fun node => node.text ≠ some "").map
      fun node => (⟨"", .replace node.seq⟩ : SystemPromptCommit)) ↔
        ∃ node ∈ later, node.text ≠ some "" ∧ commit = ⟨"", .replace node.seq⟩ := by
    simp only [List.mem_map, List.mem_filter, decide_eq_true_eq]
    constructor
    · rintro ⟨node, ⟨hnode, htext⟩, rfl⟩
      exact ⟨node, hnode, htext, rfl⟩
    · rintro ⟨node, hnode, htext, rfl⟩
      exact ⟨node, ⟨hnode, htext⟩, rfl⟩
  simp only [project, if_pos hinput]
  by_cases hhead : head.text = some rendered
  · rw [if_neg (not_not.mpr hhead), hupdates]
    exact (or_iff_left fun h => h.1 hhead).symm
  · rw [if_pos hhead, List.mem_append, hupdates, List.mem_singleton, and_iff_right hhead]

theorem mem_systemNodes {node : SystemNode} :
    node ∈ systemNodes nodes log ↔ node.seq ∈ nodes ∧ promptAt log node.seq = some node.text := by
  simp only [systemNodes, List.mem_filterMap, Option.map_eq_some_iff]
  constructor
  · rintro ⟨seq, hseq, text, htext, rfl⟩
    exact ⟨hseq, htext⟩
  · rintro ⟨hseq, htext⟩
    exact ⟨node.seq, hseq, node.text, htext, rfl⟩

/-- The places of the prompts are a part of the surface. -/
theorem seqs_sublist (nodes : List ℕ) (log : List SessionEvent) :
    List.Sublist ((systemNodes nodes log).map SystemNode.seq) nodes := by
  induction nodes with
  | nil => exact List.Sublist.slnil
  | cons seq rest ih =>
    cases hprompt : promptAt log seq with
    | none =>
      rw [systemNodes, List.filterMap_cons, hprompt]
      exact ih.cons seq
    | some text =>
      rw [systemNodes, List.filterMap_cons, hprompt]
      exact ih.cons_cons seq

variable {first : ℕ} {rest : List ℕ}

theorem replacements_project (hnodup : (first :: rest).Nodup) (headText : Option String)
    (hinput : !input.inHistory || input.startsSeries || rendered = "") :
    Replacements (first :: rest)
      (project (⟨first, headText⟩ :: systemNodes rest log) rendered input) where
  targets commit hmem := by
    rcases (mem_project_iff hinput commit).mp hmem with ⟨node, hnode, -, rfl⟩ | ⟨-, rfl⟩
    · exact ⟨node.seq, List.mem_cons_of_mem _ (mem_systemNodes.mp hnode).1, rfl⟩
    · exact ⟨first, List.mem_cons_self, rfl⟩
  distinct := by
    have hfirst := (List.nodup_cons.mp hnodup).1
    have hseqs : ((systemNodes rest log).map SystemNode.seq).Nodup :=
      (List.nodup_cons.mp hnodup).2.sublist (seqs_sublist rest log)
    have hlater : (((systemNodes rest log).filter fun node => node.text ≠ some "").map
        fun node => Intent.replace node.seq).Nodup := by
      have hkept : (((systemNodes rest log).filter fun node => node.text ≠ some "").map
          SystemNode.seq).Nodup := hseqs.sublist (List.filter_sublist.map _)
      have hmap := hkept.map (f := Intent.replace) fun a b hab => by injection hab
      rwa [List.map_map] at hmap
    rw [project, if_pos hinput]
    by_cases hhead : headText = some rendered
    · simpa [hhead, Function.comp_def] using hlater
    · have hnot : Intent.replace first ∉ ((systemNodes rest log).filter
          fun node => node.text ≠ some "").map fun node => Intent.replace node.seq := by
        intro hmem
        obtain ⟨node, hnode, heq⟩ := List.mem_map.mp hmem
        have hseq := (mem_systemNodes.mp (List.mem_of_mem_filter hnode)).1
        injection heq with heq
        exact hfirst (heq ▸ hseq)
      have happend := hlater.append (List.nodup_singleton (Intent.replace first))
        (by simpa using hnot)
      simpa [hhead, Function.comp_def] using happend

theorem otherNodes_replace {n : ℕ} {log' : List SessionEvent}
    (htexts : ∀ seq ∈ nodes, promptAt log' (placeAfter n commits seq)
      = ((textAfter commits seq).map some).or (promptAt log seq))
    (hsystem : ∀ seq, Intent.replace seq ∈ commits.map SystemPromptCommit.intent →
      promptAt log seq ≠ none) :
    otherNodes (nodes.map (placeAfter n commits)) log' = otherNodes nodes log := by
  have htarget : ∀ seq text, textAfter commits seq = some text → promptAt log seq ≠ none :=
    fun seq text htext =>
      hsystem seq (List.mem_map_of_mem (f := SystemPromptCommit.intent) (mem_of_textAfter htext))
  have hsame : ∀ seq ∈ nodes, decide (promptAt log' (placeAfter n commits seq) = none)
      = decide (promptAt log seq = none) := by
    intro seq hseq
    rw [htexts seq hseq]
    cases htext : textAfter commits seq with
    | none => rfl
    | some text => simp [htarget seq text htext]
  have hplace : ∀ seq ∈ otherNodes nodes log, placeAfter n commits seq = id seq := by
    intro seq hseq
    have hother : promptAt log seq = none := by simpa using (List.mem_filter.mp hseq).2
    cases htext : textAfter commits seq with
    | none => exact placeAfter_of_untouched n htext
    | some text => exact absurd hother (htarget seq text htext)
  rw [otherNodes, List.filter_map]
  simp only [Function.comp_def]
  rw [List.filter_congr hsame, ← otherNodes, List.map_congr_left hplace, List.map_id]

variable {headText : Option String}

theorem text_head (hfirst : first ∉ rest) (hhead : promptAt log first = some headText)
    (hinput : !input.inHistory || input.startsSeries || rendered = "") :
    ((textAfter (project (⟨first, headText⟩ :: systemNodes rest log) rendered input) first).map
      some).or (promptAt log first) = some (some rendered) := by
  cases htext : textAfter (project (⟨first, headText⟩ :: systemNodes rest log) rendered input)
      first with
  | none =>
    have hnot := not_mem_of_textAfter htext rendered
    by_cases hrendered : headText = some rendered
    · rw [hhead, hrendered]
      rfl
    · exact absurd ((mem_project_iff hinput _).mpr (.inr ⟨hrendered, rfl⟩)) hnot
  | some text =>
    rcases (mem_project_iff hinput _).mp (mem_of_textAfter htext) with
      ⟨node, hnode, -, heq⟩ | ⟨-, heq⟩
    · injection heq with _ heq
      injection heq with heq
      exact absurd (heq ▸ (mem_systemNodes.mp hnode).1) hfirst
    · injection heq with heq
      rw [heq]
      rfl

theorem text_later (hfirst : first ∉ rest)
    (hinput : !input.inHistory || input.startsSeries || rendered = "") (hseq : seq ∈ rest)
    {found : Option String}
    (hfound : ((textAfter (project (⟨first, headText⟩ :: systemNodes rest log) rendered input)
      seq).map some).or (promptAt log seq) = some found) : found = some "" := by
  cases htext : textAfter (project (⟨first, headText⟩ :: systemNodes rest log) rendered input)
      seq with
  | none =>
    rw [htext] at hfound
    by_cases hempty : found = some ""
    · exact hempty
    · have hnode : (⟨seq, found⟩ : SystemNode) ∈ systemNodes rest log :=
        mem_systemNodes.mpr ⟨hseq, hfound⟩
      exact absurd ((mem_project_iff hinput _).mpr (.inl ⟨_, hnode, hempty, rfl⟩))
        (not_mem_of_textAfter htext "")
  | some text =>
    rw [htext] at hfound
    injection hfound with hfound
    rcases (mem_project_iff hinput _).mp (mem_of_textAfter htext) with
      ⟨node, -, -, heq⟩ | ⟨-, heq⟩
    · injection heq with heq
      rw [← hfound, heq]
    · injection heq with _ heq
      injection heq with heq
      have hsame : seq = first := heq
      exact absurd (hsame ▸ hseq) hfirst

/-! ## The whole plan -/

variable {rendered : String} {input : SystemPromptDecisionInput}

theorem latestOf_concat (head : SystemNode) (nodes : List SystemNode) (hrendered : rendered ≠ "") :
    (latestOf head (nodes ++ [⟨seq, some rendered⟩])).text = some rendered := by
  simp [latestOf, hrendered]

theorem latestOf_head (hhead : head.text = some rendered)
    (hlater : ∀ node ∈ later, node.text = some "") :
    (latestOf head (head :: later)).text = some rendered := by
  have hnone : later.reverse.find? (fun node => node.text ≠ some "") = none := by
    rw [List.find?_eq_none]
    intro node hnode
    simp [hlater node (List.mem_reverse.mp hnode)]
  rw [latestOf, List.reverse_cons, List.find?_append, hnone, Option.none_or]
  cases hfind : [head].find? (fun node => node.text ≠ some "") with
  | none => exact hhead
  | some node =>
    have hnode : node = head := List.mem_singleton.mp (List.mem_of_find?_eq_some hfind)
    rw [Option.getD_some, hnode, hhead]

/-- What is left of a plan once its effective prompt is known: it settles. -/
theorem reconciled_of_effective (acc₁ : SurfaceFoldState × List SurfaceFoldReplacement)
    (hlog₁ : foldSurfaceState (appendCommits stamps log
      (project (systemNodes nodes log) rendered input)) projections = .ok acc₁)
    (haccepted : ∀ k, ∃ acc, foldSurfaceState (appendCommits stamps log
        ((project (systemNodes nodes log) rendered input).take k)) projections = .ok acc ∧
      otherNodes acc.1.nodes (appendCommits stamps log
        ((project (systemNodes nodes log) rendered input).take k)) = otherNodes nodes log)
    (heffective : ∃ head later, systemNodes acc₁.1.nodes (appendCommits stamps log
        (project (systemNodes nodes log) rendered input)) = head :: later ∧
      (latestOf head (head :: later)).text = some rendered ∧
      (!input.inHistory || input.startsSeries || rendered = "" →
        ∀ node ∈ later, node.text = some "")) :
    Reconciled projections stamps log nodes rendered input where
  accepted := haccepted
  effective acc' hlog' := by
    obtain rfl : acc₁ = acc' := by
      injection hlog₁.symm.trans hlog'
    exact heffective
  settled acc' hlog' := by
    obtain rfl : acc₁ = acc' := by
      injection hlog₁.symm.trans hlog'
    obtain ⟨head, later, hnodes, htext, -⟩ := heffective
    rw [hnodes]
    exact project_of_effective htext

theorem reconciled_append (hdeclared : DeclaredProjections projections)
    (hlog : foldSurfaceState log projections = .ok acc)
    (hplan : project (systemNodes acc.1.nodes log) rendered input = [⟨rendered, .append⟩])
    (hcase : systemNodes acc.1.nodes log = [] ∨
      rendered ≠ "" ∧ ¬(!input.inHistory || input.startsSeries || rendered = "")) :
    Reconciled projections stamps log acc.1.nodes rendered input := by
  have hlt := nodes_lt_length hlog
  obtain ⟨acc₁, hlog₁, hnodes₁⟩ := foldSurfaceState_append hdeclared hlog (stamps log.length)
    rendered
  have hsystem := systemNodes_append hlt (stamps log.length) rendered
  have heffective : ∃ head later, systemNodes acc₁.1.nodes
      (log ++ [commitEvent (stamps log.length) log.length ⟨rendered, .append⟩]) = head :: later ∧
      (latestOf head (head :: later)).text = some rendered ∧
      (!input.inHistory || input.startsSeries || rendered = "" →
        ∀ node ∈ later, node.text = some "") := by
    rw [hnodes₁, hsystem]
    rcases hcase with hnone | ⟨hrendered, hinput⟩
    · refine ⟨⟨log.length, some rendered⟩, [], by rw [hnone]; rfl, latestOf_head rfl ?_, ?_⟩
      · intro node hnode
        cases hnode
      · intro _ node hnode
        cases hnode
    · cases hnodes : systemNodes acc.1.nodes log with
      | nil =>
        refine ⟨_, [], rfl, latestOf_concat _ [] hrendered, ?_⟩
        intro hnormal
        exact absurd hnormal hinput
      | cons head later =>
        refine ⟨head, _, rfl, latestOf_concat _ (head :: later) hrendered, ?_⟩
        intro hnormal
        exact absurd hnormal hinput
  refine reconciled_of_effective acc₁ (by rw [hplan]; exact hlog₁) ?_ ?_
  · intro k
    rw [hplan]
    cases k with
    | zero => exact ⟨acc, hlog, rfl⟩
    | succ k =>
      rw [List.take_succ_cons, List.take_nil]
      refine ⟨acc₁, hlog₁, ?_⟩
      rw [hnodes₁]
      exact otherNodes_append hlt (stamps log.length) rendered
  · rw [hplan]
    exact heffective

theorem reconciled_replace (hdeclared : DeclaredProjections projections)
    (hlog : foldSurfaceState log projections = .ok acc) (hlength : log.length ≤ Json.maxArrayLength)
    (hnodes : acc.1.nodes = first :: rest) (hhead : promptAt log first = some headText)
    (hinput : !input.inHistory || input.startsSeries || rendered = "") :
    Reconciled projections stamps log acc.1.nodes rendered input := by
  have hlt := nodes_lt_length hlog
  have hnodup := nodes_nodup hlog
  rw [hnodes] at hnodup
  have hfirst := (List.nodup_cons.mp hnodup).1
  have hsystem : systemNodes acc.1.nodes log = ⟨first, headText⟩ :: systemNodes rest log := by
    rw [hnodes, systemNodes, List.filterMap_cons, hhead]
    rfl
  have hreplace : Replacements acc.1.nodes
      (project (systemNodes acc.1.nodes log) rendered input) := by
    rw [hsystem, hnodes]
    exact replacements_project hnodup headText hinput
  have hprompts : ∀ seq, .replace seq ∈ (project (systemNodes acc.1.nodes log) rendered input).map
      SystemPromptCommit.intent → promptAt log seq ≠ none := by
    intro seq hmem
    obtain ⟨commit, hcommit, hintent⟩ := List.mem_map.mp hmem
    rw [hsystem] at hcommit
    rcases (mem_project_iff hinput commit).mp hcommit with ⟨node, hnode, -, rfl⟩ | ⟨-, rfl⟩
    · injection hintent with hintent
      rw [← hintent, (mem_systemNodes.mp hnode).2]
      exact Option.some_ne_none _
    · injection hintent with hintent
      rw [← hintent, hhead]
      exact Option.some_ne_none _
  have hsafe : ∀ seq, .replace seq ∈ (project (systemNodes acc.1.nodes log) rendered input).map
      SystemPromptCommit.intent → seq ≤ Json.maxSafeInteger := by
    intro seq hmem
    obtain ⟨commit, hcommit, hintent⟩ := List.mem_map.mp hmem
    obtain ⟨target, htarget, hintent'⟩ := hreplace.targets commit hcommit
    have hsame : target = seq := by
      rw [hintent'] at hintent
      injection hintent
    have hle := Json.maxArrayLength_le
    have hltseq := hlt target htarget
    omega
  obtain ⟨acc₁, hlog₁, hnodes₁, htexts₁⟩ := appendCommits_replace stamps hdeclared hlog
    hreplace hsafe
  have heffective : ∃ head later, systemNodes acc₁.1.nodes (appendCommits stamps log
        (project (systemNodes acc.1.nodes log) rendered input)) = head :: later ∧
      (latestOf head (head :: later)).text = some rendered ∧
      ∀ node ∈ later, node.text = some "" := by
    rw [hnodes₁, hsystem]
    rw [hsystem, hnodes] at htexts₁
    rw [hnodes, List.map_cons]
    have hlater : ∀ node ∈ systemNodes (rest.map (placeAfter log.length
        (project (⟨first, headText⟩ :: systemNodes rest log) rendered input)))
        (appendCommits stamps log (project (⟨first, headText⟩ :: systemNodes rest log) rendered
          input)), node.text = some "" := by
      intro node hnode
      obtain ⟨hplace, htext⟩ := mem_systemNodes.mp hnode
      obtain ⟨seq, hseq, heq⟩ := List.mem_map.mp hplace
      rw [← heq, htexts₁ seq (List.mem_cons_of_mem _ hseq)] at htext
      exact text_later hfirst hinput hseq htext
    have hrewritten := (htexts₁ first List.mem_cons_self).trans (text_head hfirst hhead hinput)
    refine ⟨⟨placeAfter log.length (project (⟨first, headText⟩ :: systemNodes rest log) rendered
      input) first, some rendered⟩, _, ?_, latestOf_head rfl hlater, hlater⟩
    rw [systemNodes, List.filterMap_cons, hrewritten]
    rfl
  obtain ⟨head, later, hfinal, htext, hlater⟩ := heffective
  refine reconciled_of_effective acc₁ hlog₁ ?_ ⟨head, later, hfinal, htext, fun _ => hlater⟩
  intro k
  obtain ⟨acc', hlog', hnodes', htexts'⟩ := appendCommits_replace stamps hdeclared hlog
    (hreplace.take k) (fun seq hmem => hsafe seq (by
      rw [List.map_take] at hmem
      exact List.mem_of_mem_take hmem))
  refine ⟨acc', hlog', ?_⟩
  rw [hnodes']
  refine otherNodes_replace htexts' ?_
  intro seq hmem
  rw [List.map_take] at hmem
  exact hprompts seq (List.mem_of_mem_take hmem)

/-- Where the first node of a surface is a system prompt, or the surface is empty, the commits of
a projection reach the rendered prompt. -/
theorem prompt_reconciled (hdeclared : DeclaredProjections projections)
    (hlog : foldSurfaceState log projections = .ok acc) (hlength : log.length ≤ Json.maxArrayLength)
    (hhead : ∀ seq, acc.1.nodes.head? = some seq → promptAt log seq ≠ none)
    (stamps : ℕ → Stamp) (rendered : String) (input : SystemPromptDecisionInput) :
    Reconciled projections stamps log acc.1.nodes rendered input := by
  cases hnodes : acc.1.nodes with
  | nil =>
    have hnone : systemNodes acc.1.nodes log = [] := by rw [hnodes]; rfl
    rw [← hnodes]
    exact reconciled_append hdeclared hlog (by rw [hnone]; rfl) (.inl hnone)
  | cons first rest =>
    obtain ⟨headText, hfirst⟩ := Option.ne_none_iff_exists'.mp (hhead first (by rw [hnodes]; rfl))
    have hsystem : systemNodes acc.1.nodes log = ⟨first, headText⟩ :: systemNodes rest log := by
      rw [hnodes, systemNodes, List.filterMap_cons, hfirst]
      rfl
    rw [← hnodes]
    by_cases hinput : !input.inHistory || input.startsSeries || rendered = ""
    · exact reconciled_replace hdeclared hlog hlength hnodes hfirst hinput
    · have hrendered : rendered ≠ "" := by
        rintro rfl
        exact hinput (by simp)
      by_cases hlatest : (latestOf ⟨first, headText⟩
          (⟨first, headText⟩ :: systemNodes rest log)).text = some rendered
      · have hplan : project (systemNodes acc.1.nodes log) rendered input = [] := by
          rw [hsystem, project, if_neg hinput, if_pos hlatest]
        refine reconciled_of_effective acc (by rw [hplan]; exact hlog) ?_ ?_
        · intro k
          rw [hplan, List.take_nil]
          exact ⟨acc, hlog, rfl⟩
        · rw [hplan]
          exact ⟨_, _, hsystem, hlatest, fun hnormal => absurd hnormal hinput⟩
      · have hplan : project (systemNodes acc.1.nodes log) rendered input
            = [⟨rendered, .append⟩] := by
          rw [hsystem, project, if_neg hinput, if_neg hlatest]
        exact reconciled_append hdeclared hlog hplan (.inr ⟨hrendered, hinput⟩)

/-! ## An in-history prompt folded back into the head -/

/-- A prompt, a message and a later prompt. -/
def promptLog : List SessionEvent :=
  [commitEvent ⟨"s0", 0, 0, 0⟩ 0 ⟨"Be brief.", .append⟩, RuntimeContext.contextEvent 1 "branch main",
    commitEvent ⟨"s2", 1, 0, 0⟩ 2 ⟨"Be thorough.", .append⟩]

theorem prompt_reconciled_promptLog : ∃ acc, foldSurfaceState promptLog [] = .ok acc ∧
    Reconciled [] (fun _ => ⟨"s", 2, 0, 0⟩) promptLog acc.1.nodes "Be kind." ⟨false, false⟩ := by
  have haccepted : (foldSurfaceState promptLog []).map (fun acc => acc.1.nodes)
      = .ok [0, 1, 2] := by
    decide +kernel
  cases hlog : foldSurfaceState promptLog [] with
  | error message =>
    rw [hlog] at haccepted
    cases haccepted
  | ok acc =>
    rw [hlog] at haccepted
    have hnodes : acc.1.nodes = [0, 1, 2] := Except.ok.inj haccepted
    have hdeclared : DeclaredProjections [] := fun p hp => by cases hp
    refine ⟨acc, rfl, prompt_reconciled hdeclared hlog (by decide) ?_ _ _ _⟩
    intro seq hseq
    rw [hnodes] at hseq
    obtain rfl : 0 = seq := Option.some.inj hseq
    decide +kernel

end SystemPrompt

end TianmaCoder
