import TianmaCoder.Team.BoardLaws

/-!
# Commands and the projection that reads them back

Every event of a team is decoded again, by strict schemas and transition rules of the
projection's own. The commands append only what that decoder accepts, apart from two values it
has no place for: a message block outside its grammar, and a revision beyond the safe integers.

## Main definitions

* `StateLaw` — what a projected state satisfies.
* `Fits` — operations whose values the decoder has a place for.

## Main results

* `stable_contentBlockSchema` — stored content is read back.
* `applies_of_body` — what a ready and fitting operation appends is accepted.
-/

namespace TianmaCoder

namespace Team

open Checked Schema

/-! ### Content -/

/-- What reads a type tag, and leaves it. -/
def Tagged (tag : String) (schema : Schema) : Prop :=
  ∀ {v w}, schema v = some w → v.get? "type" = some (.str tag) ∧ w.get? "type" = some (.str tag)

theorem literal_eq_some {text : String} {v w : Json} (h : literal text v = some w) :
    v = .str text ∧ w = .str text := by
  cases v with
  | str s =>
    rw [literal] at h
    split at h
    · next heq =>
        cases h
        exact ⟨congrArg Json.str heq, congrArg Json.str heq⟩
    · cases h
  | _ => cases h

theorem tagged_strict {tag : String} {fields : List Field}
    (hnames : ((required "type" (literal tag) :: fields).map Field.name).Nodup) :
    Tagged tag (strict (required "type" (literal tag) :: fields)) := by
  intro v w h
  obtain ⟨member, rebuilt, hv, hread, hw⟩ := get?_of_strict hnames h List.mem_cons_self rfl
  obtain ⟨rfl, rfl⟩ := literal_eq_some hread
  exact ⟨hv, hw⟩

theorem tagged_textBlock : Tagged "text" textBlockSchema := tagged_strict (by decide)
theorem tagged_reasoningBlock : Tagged "reasoning" reasoningBlockSchema := tagged_strict (by decide)
theorem tagged_imageBlock : Tagged "image" imageBlockSchema := tagged_strict (by decide)
theorem tagged_toolCallBlock : Tagged "tool-call" toolCallBlockSchema := tagged_strict (by decide)

/-- A schema with a tag does not read what another tag marks. -/
theorem Tagged.apart {tag tag' : String} {s t : Schema} (hs : Tagged tag s) (ht : Tagged tag' t)
    (hne : tag ≠ tag') {v w : Json} (h : t v = some w) : s w = none := by
  by_contra hsome
  obtain ⟨u, hu⟩ := Option.ne_none_iff_exists'.mp hsome
  have htag := (hs hu).1
  rw [(ht h).2, Option.some.injEq, Json.str.injEq] at htag
  exact hne htag.symm

theorem Tagged.apart_plugin {tag : String} {s : Schema} (hs : Tagged tag s)
    (hcore : tag ∈ coreContentBlockTypes) {v w : Json} (h : custom isPluginBlock v = some w) :
    s w = none := by
  by_contra hsome
  obtain ⟨u, hu⟩ := Option.ne_none_iff_exists'.mp hsome
  have hplugin : isPluginBlock w = true := by
    rw [custom] at h
    split at h
    · next htest =>
        cases h
        exact htest
    · cases h
  simp only [isPluginBlock, (hs hu).1, ne_eq, Bool.and_eq_true, decide_eq_true_eq] at hplugin
  exact hplugin.2 hcore

theorem stable_imageAttachment : Stable imageAttachmentSchema := by
  refine stable_strict (by decide) ?_
  simp only [List.forall_mem_cons, List.not_mem_nil, false_implies, implies_true, and_true,
    required, optional]
  exact ⟨keeps_nonEmptyString.stable, (keeps_oneOf _).stable, (keeps_safeInteger 0).stable,
    (keeps_safeInteger 1).stable, (keeps_safeInteger 1).stable, keeps_string.stable⟩

/-- Stored content is read back. -/
theorem stable_contentBlockSchema : Stable contentBlockSchema := by
  refine stable_union ?_ ?_
  · simp only [List.forall_mem_cons, List.not_mem_nil, false_implies, implies_true, and_true]
    refine ⟨?_, ?_, ?_, ?_, (keeps_custom _).stable⟩
    · refine stable_strict (by decide) ?_
      simp only [List.forall_mem_cons, List.not_mem_nil, false_implies, implies_true, and_true, required]
      exact ⟨(keeps_literal _).stable, keeps_string.stable⟩
    · refine stable_strict (by decide) ?_
      simp only [List.forall_mem_cons, List.not_mem_nil, false_implies, implies_true, and_true, required]
      exact ⟨(keeps_literal _).stable, keeps_string.stable⟩
    · refine stable_strict (by decide) ?_
      simp only [List.forall_mem_cons, List.not_mem_nil, false_implies, implies_true, and_true, required]
      exact ⟨(keeps_literal _).stable, stable_imageAttachment⟩
    · refine stable_strict (by decide) ?_
      simp only [List.forall_mem_cons, List.not_mem_nil, false_implies, implies_true, and_true, required]
      exact ⟨(keeps_literal _).stable, keeps_nonEmptyString.stable, keeps_string.stable,
        keeps_string.stable⟩
  · simp only [List.pairwise_cons, List.forall_mem_cons, List.not_mem_nil, false_implies,
      implies_true, and_true, List.Pairwise.nil]
    exact ⟨⟨tagged_textBlock.apart tagged_reasoningBlock (by decide),
        tagged_textBlock.apart tagged_imageBlock (by decide),
        tagged_textBlock.apart tagged_toolCallBlock (by decide),
        tagged_textBlock.apart_plugin (by decide)⟩,
      ⟨tagged_reasoningBlock.apart tagged_imageBlock (by decide),
        tagged_reasoningBlock.apart tagged_toolCallBlock (by decide),
        tagged_reasoningBlock.apart_plugin (by decide)⟩,
      ⟨tagged_imageBlock.apart tagged_toolCallBlock (by decide),
        tagged_imageBlock.apart_plugin (by decide)⟩,
      tagged_toolCallBlock.apart_plugin (by decide)⟩

variable {content : List Json}

theorem mapM_stable {schema : Schema} (h : Stable schema) {rebuilt : List Json}
    (hread : content.mapM schema = some rebuilt) : rebuilt.mapM schema = some rebuilt := by
  induction content generalizing rebuilt with
  | nil =>
    cases hread
    rfl
  | cons block content ih =>
    simp only [List.mapM_cons, Option.bind_eq_bind, Option.bind_eq_some_iff, Option.pure_def,
      Option.some.injEq] at hread
    obtain ⟨first, hfirst, rest, hrest, rfl⟩ := hread
    simp [List.mapM_cons, h hfirst, ih hrest]

theorem mapM_isSome {schema : Schema} :
    (content.mapM schema).isSome = true ↔ ∀ block ∈ content, (schema block).isSome = true := by
  induction content with
  | nil => simp
  | cons block content ih =>
    cases hblock : schema block with
    | none => simp [List.mapM_cons, hblock]
    | some first =>
      cases hrest : content.mapM schema with
      | none =>
        rw [hrest] at ih
        simp only [List.mapM_cons, hblock, hrest, List.forall_mem_cons, ← ih]
        simp
      | some rest =>
        rw [hrest] at ih
        simp only [List.mapM_cons, hblock, hrest, List.forall_mem_cons, ← ih]
        simp

theorem readMessage_stable {message rebuilt : TeamMessageSnapshot}
    (h : readMessage message = some rebuilt) : readMessage rebuilt = some rebuilt := by
  rw [readMessage] at h
  split at h
  · next hids =>
      rw [Option.map_eq_some_iff] at h
      obtain ⟨content, hcontent, rfl⟩ := h
      rw [readMessage, if_pos hids, mapM_stable stable_contentBlockSchema hcontent]
      rfl
  · cases h

/-! ### Task ids -/

theorem taskNumber?_task (n : ℕ) : taskNumber? s!"task-{n}" = some n := by
  have hdigits : (s!"task-{n}").toList = 't' :: 'a' :: 's' :: 'k' :: '-' :: Nat.toDigits 10 n := by
    have happend : s!"task-{n}" = "task-" ++ Nat.repr n := rfl
    rw [happend, String.toList_append, Nat.repr, String.toList_ofList, String.toList_ofList]
    rfl
  rw [taskNumber?, hdigits]
  have hne : Nat.toDigits 10 n ≠ [] := Nat.toDigits_ne_nil
  have hall : (Nat.toDigits 10 n).all Char.isDigit = true := by
    rw [List.all_eq_true]
    intro c hc
    exact Nat.isDigit_of_mem_toDigits (by decide) (by decide) hc
  simp only [hne, hall, ne_eq, not_false_eq_true, and_self, if_true]
  rw [Nat.ofDigitChars_toDigits (by decide) (by decide)]

theorem isTaskId_task {n : ℕ} (h : n ≤ Json.maxSafeInteger) : isTaskId s!"task-{n}" = true := by
  have hne : s!"task-{n}" ≠ "" := by
    intro heq
    have hnumber := taskNumber?_task n
    rw [heq] at hnumber
    cases hnumber
  rw [isTaskId, taskNumber?_task]
  simp only [hne, h, ne_eq, not_false_eq_true, decide_true, Bool.and_self]

theorem isPositiveSafe_iff {n : ℕ} : isPositiveSafe n = true ↔ 1 ≤ n ∧ n ≤ Json.maxSafeInteger := by
  simp [isPositiveSafe]

theorem isPositiveSafe_nextNumber {n : ℕ} {id : String} (h : isPositiveSafe n = true)
    (hid : isTaskId id = true) : isPositiveSafe (nextNumber n id) = true := by
  rw [isPositiveSafe_iff] at h ⊢
  rw [nextNumber]
  cases hnumber : taskNumber? id with
  | none => exact h
  | some number =>
    simp only [isTaskId, hnumber, ne_eq, Bool.and_eq_true, decide_eq_true_eq] at hid
    obtain ⟨-, hsafe⟩ := hid
    dsimp only
    split <;> omega

/-! ### Accepted events -/

/-- What a projected state satisfies, given the identifiers drawn so far. -/
structure StateLaw (issued : List String) (state : TeamState) : Prop where
  id : state.id ≠ ""
  member : ∀ member ∈ state.members, member.id ≠ "" ∧ member.id ∈ issued
  memberIds : (state.members.map TeamMemberSnapshot.id).Nodup
  memberNames : (state.members.map TeamMemberSnapshot.name).Nodup
  task : ∀ task ∈ state.tasks, acceptsTask task = true
  message : ∀ message ∈ state.messages, (readMessage message).isSome = true ∧
    ∃ uuid ∈ issued, message.id = "team-message-" ++ uuid
  delivered : ∀ id ∈ state.delivered, id ≠ ""
  number : isPositiveSafe state.nextTaskNumber = true

/-- The schema of a stored state accepts it. -/
theorem StateLaw.acceptsState {issued : List String} {projection : TeamProjectionState}
    (h : StateLaw issued projection.toTeamState) : acceptsState projection = true := by
  simp only [Team.acceptsState, Bool.and_eq_true, List.all_eq_true, decide_eq_true_eq]
  refine ⟨⟨⟨⟨⟨h.id, ?_⟩, h.task⟩, ?_⟩, h.delivered⟩, h.number⟩
  · intro member hmember
    simpa [acceptsMember] using (h.member member hmember).1
  · intro message hmessage
    exact (h.message message hmessage).1

/-- The roster has a row for the member. -/
def Rostered (members : List TeamMemberSnapshot) (member : TeamMemberSnapshot) : Prop :=
  ∃ row ∈ members, row.id = member.id ∧ row.name = member.name ∧ row.provider = member.provider ∧
    row.context = member.context

/-- What a queued operation brings from its call. -/
def Ready (issued : List String) (members : List TeamMemberSnapshot) : Command → Prop
  | .updateTask callerId _ _ => callerId ≠ ""
  | .provision member => member.id ≠ "" ∧ member.phase = .provisioning ∧ member.id ∈ issued ∧
      ∀ other ∈ members, other.id ≠ member.id
  | .settleProvisioning member _ => Rostered members member
  | .sendMessage callerId _ _ _ => callerId ≠ ""
  | _ => True

/-- An operation whose values the decoder has a place for. -/
def Fits : Command → Prop
  | .updateTask _ _ request => request.expectedRevision < Json.maxSafeInteger
  | .sendMessage _ _ _ content => ∀ block ∈ content, (contentBlockSchema block).isSome = true
  | _ => True

/-- How the roster changes: rows keep their identity, and a provisioned row is the only new one. -/
structure RosterGrows (command : Command) (old new : List TeamMemberSnapshot) : Prop where
  kept : ∀ member, Rostered old member → Rostered new member
  added : ∀ row ∈ new, (∃ other ∈ old, other.id = row.id) ∨
    ∃ member, command = .provision member ∧ member.id = row.id
  provisioned : ∀ member, command = .provision member → Rostered new member

/-- The event is decoded and applied, and the law holds afterwards. -/
def Applies (issued : List String) (command : Command) (state : TeamState) (data : TeamEventData) :
    Prop :=
  ∃ decoded next, parseCurrentTeamEvent ⟨2, state.id, data⟩ = .ok decoded ∧
    applyCurrentTeamEvent state decoded = .ok next ∧ StateLaw issued next ∧
    RosterGrows command state.members next.members

variable {command : Command}

theorem RosterGrows.refl (members : List TeamMemberSnapshot)
    (h : ∀ member, command ≠ .provision member) : RosterGrows command members members where
  kept _ hmember := hmember
  added row hrow := .inl ⟨row, hrow, rfl⟩
  provisioned member hmember := absurd hmember (h member)

theorem StateLaw.mono {issued issued' : List String} {state : TeamState} (h : StateLaw issued state)
    (hsub : issued ⊆ issued') : StateLaw issued' state :=
  { h with
    member := fun member hmember =>
      ⟨(h.member member hmember).1, hsub (h.member member hmember).2⟩
    message := fun message hmessage => by
      obtain ⟨hread, uuid, huuid, hid⟩ := h.message message hmessage
      exact ⟨hread, uuid, hsub huuid, hid⟩ }

section Events

variable {issued : List String} {state : TeamState}

variable {data : TeamEventData} {member : TeamMemberSnapshot}

/-- A new provisioning row is accepted. -/
theorem applies_provision (h : StateLaw issued state)
    (hready : Ready issued state.members (.provision member)) {maxMembers : ℕ}
    (hbody : provision maxMembers member state = .ok (some data)) :
    Applies issued (.provision member) state data := by
  obtain ⟨hid, hphase, hissued, hfresh⟩ := hready
  rw [provision, reject_eq, guard_ok_iff, reject_eq, guard_ok_iff] at hbody
  obtain ⟨hname, -, hdata⟩ := hbody
  cases hdata
  have hnames : ∀ other ∈ state.members, other.name ≠ member.name := by simpa using hname
  have happend : putFirst (fun candidate => candidate.id = member.id) member state.members
      = state.members ++ [member] := by
    refine putFirst_of_forall ?_
    intro other hother
    simpa using hfresh other hother
  refine ⟨.member member, { state with members := state.members ++ [member] }, ?_, ?_, ?_, ?_⟩
  · rw [parseCurrentTeamEvent_ok_iff]
    exact ⟨by simpa [acceptsMember] using hid, rfl⟩
  · refine applyMember_ok_iff.mpr ⟨?_, ?_, ?_⟩
    · intro named hnamed
      have hmem := List.mem_of_find?_eq_some hnamed
      have heq := List.find?_some hnamed
      exact absurd (by simpa using heq) (hnames named hmem)
    · have hnone : (state.members.find? fun candidate => candidate.id = member.id) = none := by
        rw [List.find?_eq_none]
        simpa using hfresh
      rw [hnone]
      exact hphase
    · rw [happend]
  · refine { h with member := ?_, memberIds := ?_, memberNames := ?_ }
    · intro other hother
      rcases List.mem_append.mp hother with hother | hother
      · exact h.member other hother
      · rw [List.mem_singleton.mp hother]
        exact ⟨hid, hissued⟩
    · rw [List.map_append, List.map_singleton]
      refine List.Nodup.append h.memberIds (List.nodup_singleton _) ?_
      simpa using hfresh
    · rw [List.map_append, List.map_singleton]
      refine List.Nodup.append h.memberNames (List.nodup_singleton _) ?_
      simpa using hnames
  · constructor
    · rintro other ⟨row, hrow, hsame⟩
      exact ⟨row, List.mem_append_left _ hrow, hsame⟩
    · intro row hrow
      rcases List.mem_append.mp hrow with hrow | hrow
      · exact .inl ⟨row, hrow, rfl⟩
      · exact .inr ⟨member, rfl, by rw [List.mem_singleton.mp hrow]⟩
    · intro other hother
      cases hother
      exact ⟨member, by simp, rfl, rfl, rfl, rfl⟩

variable {failure : Option String}

theorem applies_terminal (h : StateLaw issued state) {prior : TeamMemberSnapshot}
    (hprior : (state.members.find? fun candidate => candidate.id = member.id) = some prior)
    (hphase : prior.phase = .provisioning)
    (hsame : prior.name = member.name ∧ prior.provider = member.provider ∧
      prior.context = member.context) (hcommand : ∀ other, command ≠ .provision other) :
    Applies issued command state (.member (terminal member failure)) := by
  obtain ⟨hmatch, before, after, hsplit, hbefore⟩ := split_of_find? hprior
  have hid : prior.id = member.id := by simpa using hmatch
  obtain ⟨hname, hprovider, hcontext⟩ := hsame
  have hterminal : (terminal member failure).id = member.id ∧
      (terminal member failure).name = member.name ∧
      (terminal member failure).provider = member.provider ∧
      (terminal member failure).context = member.context ∧
      (terminal member failure).phase ≠ .provisioning := by
    cases failure <;> simp [terminal]
  obtain ⟨htid, htname, htprovider, htcontext, htphase⟩ := hterminal
  generalize hrow : terminal member failure = row at htid htname htprovider htcontext htphase ⊢
  have hput : putFirst (fun candidate => candidate.id = row.id) row state.members
      = before ++ row :: after := by
    rw [hsplit]
    refine putFirst_of_split ?_ (by simp [hid, htid])
    intro other hother
    simpa [htid] using hbefore other hother
  have hmem : prior ∈ state.members := by simp [hsplit]
  refine ⟨.member row, { state with members := before ++ row :: after }, ?_, ?_, ?_, ?_⟩
  · rw [parseCurrentTeamEvent_ok_iff]
    refine ⟨?_, rfl⟩
    have hne := (h.member prior hmem).1
    simpa [acceptsMember, htid, ← hid] using hne
  · refine applyMember_ok_iff.mpr ⟨?_, ?_, ?_⟩
    · intro named hnamed
      have hnamedMem := List.mem_of_find?_eq_some hnamed
      have heq : named.name = row.name := by simpa using List.find?_some hnamed
      have hsame : named = prior :=
        List.inj_on_of_nodup_map h.memberNames hnamedMem hmem
          (heq.trans (htname.trans hname.symm))
      rw [hsame, htid, hid]
    · rw [htid, hprior]
      exact ⟨hname.trans htname.symm, hprovider.trans htprovider.symm,
        hcontext.trans htcontext.symm, hphase, htphase⟩
    · rw [hput]
  · have hids := h.memberIds
    have hnames := h.memberNames
    rw [hsplit] at hids hnames
    refine { h with member := ?_, memberIds := ?_, memberNames := ?_ }
    · intro other hother
      by_cases hrowOther : other = row
      · subst hrowOther
        rw [htid, ← hid]
        exact h.member prior hmem
      · refine h.member other ?_
        rw [hsplit]
        simpa [hrowOther] using Or.imp_right .inr
          (by simpa [hrowOther] using hother : other ∈ before ∨ other ∈ after)
    · simpa [htid, hid] using hids
    · simpa [htname, hname] using hnames
  · constructor
    · rintro other ⟨old, hold, holdId, holdRest⟩
      by_cases hprior' : old = prior
      · subst hprior'
        refine ⟨row, by simp, ?_⟩
        rw [htid, htname, htprovider, htcontext, ← hid, ← hname, ← hprovider, ← hcontext]
        exact ⟨holdId, holdRest⟩
      · refine ⟨old, ?_, holdId, holdRest⟩
        rw [hsplit] at hold
        simp only [List.mem_append, List.mem_cons] at hold ⊢
        tauto
    · intro other hother
      left
      by_cases hrowOther : other = row
      · exact ⟨prior, hmem, by rw [hrowOther, htid, hid]⟩
      · refine ⟨other, ?_, rfl⟩
        rw [hsplit]
        simp only [List.mem_append, List.mem_cons] at hother ⊢
        tauto
    · intro other hother
      exact absurd hother (hcommand other)

theorem StateLaw.row_of_find? (h : StateLaw issued state) {row : TeamMemberSnapshot}
    (hrostered : Rostered state.members member)
    (hfind : (state.members.find? fun candidate => candidate.id = member.id) = some row) :
    row.name = member.name ∧ row.provider = member.provider ∧ row.context = member.context := by
  obtain ⟨other, hother, hid, hsame⟩ := hrostered
  have hrow := List.mem_of_find?_eq_some hfind
  have hrowId : row.id = member.id := by simpa using List.find?_some hfind
  have heq : row = other :=
    List.inj_on_of_nodup_map h.memberIds hrow hother (hrowId.trans hid.symm)
  exact heq ▸ hsame

theorem applies_settle (h : StateLaw issued state)
    (hready : Ready issued state.members (.settleProvisioning member failure))
    (hbody : settleProvisioning (terminal member failure) state = .ok (some data)) :
    Applies issued (.settleProvisioning member failure) state data := by
  have hid : (terminal member failure).id = member.id := by cases failure <;> rfl
  rw [settleProvisioning, hid] at hbody
  cases hfind : state.members.find? fun candidate => candidate.id = member.id with
  | none =>
    rw [hfind] at hbody
    cases hbody
  | some row =>
    simp only [hfind] at hbody
    by_cases hphase : row.phase = .provisioning
    · rw [if_neg (not_not.mpr hphase)] at hbody
      cases hbody
      exact applies_terminal h hfind hphase (h.row_of_find? hready hfind) (by simp)
    · rw [if_pos hphase] at hbody
      cases hbody

theorem applies_reconcile (h : StateLaw issued state) {memberId : String}
    (hbody : reconcileProvisioning memberId failure state = .ok (some data)) :
    Applies issued (.reconcileProvisioning memberId failure) state data := by
  rw [reconcileProvisioning] at hbody
  cases hfind : state.members.find? fun candidate => candidate.id = memberId with
  | none =>
    rw [hfind] at hbody
    cases hbody
  | some row =>
    simp only [hfind] at hbody
    by_cases hphase : row.phase = .provisioning
    · rw [if_neg (not_not.mpr hphase)] at hbody
      cases hbody
      have hid : row.id = memberId := by simpa using List.find?_some hfind
      exact applies_terminal h (hid ▸ hfind) hphase ⟨rfl, rfl, rfl⟩ (by simp)
    · rw [if_pos hphase] at hbody
      cases hbody

variable {task : TeamTaskSnapshot}

section

variable (h : StateLaw issued state)
include h

/-- A snapshot is accepted once its parts are. -/
theorem applies_task (hcommand : ∀ member, command ≠ .provision member)
    (haccepts : acceptsTask task = true)
    (hrevision : match state.tasks.find? fun candidate => candidate.id = task.id with
      | none => task.revision = 1
      | some prior => task.revision = prior.revision + 1)
    (hgraph : assertTaskGraphCandidate state.tasks task = .ok ()) :
    Applies issued command state (.task task) := by
  refine ⟨.task task, _, parseCurrentTeamEvent_ok_iff.mpr ⟨haccepts, rfl⟩,
    applyTask_ok_iff.mpr ⟨hrevision, hgraph, rfl⟩, ?_, RosterGrows.refl _ hcommand⟩
  have hid : isTaskId task.id = true := by
    simp only [acceptsTask, Bool.and_eq_true] at haccepts
    exact haccepts.1.1.1
  refine { h with task := ?_, number := isPositiveSafe_nextNumber h.number hid }
  intro other hother
  rcases mem_putFirst hother with rfl | hother
  · exact haccepts
  · exact h.task other hother

theorem StateLaw.isTaskId_of_known {id : String}
    (hknown : Known state.tasks id) : isTaskId id = true := by
  obtain ⟨task, htask, rfl, -⟩ := hknown
  have haccepts := h.task task htask
  simp only [acceptsTask, Bool.and_eq_true] at haccepts
  exact haccepts.1.1.1

theorem applies_create {maxTasks : ℕ} {request : CreateTeamTaskRequest}
    (hcreate : createTask maxTasks request state = .ok task) :
    Applies issued (.createTask request) state (.task task) := by
  have hc := createTask_ok hcreate
  refine applies_task h (by simp) ?_ ?_ hc.graph
  · have hnumber := isPositiveSafe_iff.mp h.number
    simp only [acceptsTask, Bool.and_eq_true, List.all_eq_true, decide_eq_true_eq]
    refine ⟨⟨⟨?_, ?_⟩, ?_⟩, ?_⟩
    · rw [hc.id]
      exact isTaskId_task hnumber.2
    · rw [hc.revision]
      decide
    · rw [hc.owner]
      simp
    · intro id hid
      exact h.isTaskId_of_known (hc.known id hid)
  · have hnone : (state.tasks.find? fun candidate => candidate.id = task.id) = none := by
      rw [List.find?_eq_none]
      simpa using hc.fresh
    rw [hnone]
    exact hc.revision

theorem applies_update {rootId callerId : String} (hroot : rootId ≠ "")
    {membership : TeamMembership} {request : UpdateTeamTaskRequest} (hcaller : callerId ≠ "")
    (hsafe : request.expectedRevision < Json.maxSafeInteger)
    (hupdate : updateTask rootId callerId membership request state = .ok task) :
    Applies issued (.updateTask callerId membership request) state (.task task) := by
  obtain ⟨current, hu⟩ := updateTask_ok hupdate
  obtain ⟨hcurrent, hcurrentId⟩ := findTask_eq_some hu.found
  have haccepts := h.task current hcurrent
  simp only [acceptsTask, Bool.and_eq_true, List.all_eq_true, decide_eq_true_eq] at haccepts
  obtain ⟨⟨⟨hid, hrevision⟩, howner⟩, hblocked⟩ := haccepts
  refine applies_task h (by simp) ?_ ?_ hu.graph
  · simp only [acceptsTask, Bool.and_eq_true, List.all_eq_true, decide_eq_true_eq]
    refine ⟨⟨⟨?_, ?_⟩, ?_⟩, ?_⟩
    · rw [hu.advanced.id]
      exact hid
    · have hexpected := hu.expected
      rw [isPositiveSafe_iff, hu.revision]
      omega
    · -- every owner an update may give has an id
      have hgiven := hu.advanced.owner
      generalize task.ownerId = owner at hgiven ⊢
      cases hgiven with
      | kept => exact howner
      | none => simp
      | caller => simpa using hcaller
      | lead => simpa using hroot
      | member hmember => simpa using (h.member _ hmember).1
    · intro id hmem
      rcases hu.advanced.known with hsame | hknown
      · exact hblocked id (hsame ▸ hmem)
      · exact h.isTaskId_of_known (hknown id hmem)
  · have hfound : (state.tasks.find? fun candidate => candidate.id = task.id) = some current := by
      rw [hu.advanced.id, hcurrentId]
      exact hu.found
    rw [hfound]
    exact hu.revision

theorem applies_queued {message : TeamMessageSnapshot}
    (hcommand : ∀ member, command ≠ .provision member) {uuid : String}
    (hid : message.id = "team-message-" ++ uuid) (huuid : uuid ∈ issued)
    (hfresh : ∀ other ∈ state.messages, other.id ≠ message.id) (hsender : message.senderId ≠ "")
    (htarget : message.targetId ≠ "")
    (hcontent : ∀ block ∈ message.content, (contentBlockSchema block).isSome = true) :
    Applies issued command state (.queued message) := by
  obtain ⟨content, hrebuilt⟩ := Option.isSome_iff_exists.mp (mapM_isSome.mpr hcontent)
  have hne : message.id ≠ "" := by
    rw [hid]
    intro hempty
    have hlength := congrArg String.length hempty
    rw [String.length_append] at hlength
    have hleading : "team-message-".length = 13 := by decide
    have hzero : "".length = 0 := rfl
    omega
  have hread : readMessage message = some { message with content } := by
    rw [readMessage, if_pos ⟨hne, hsender, htarget⟩, hrebuilt]
    rfl
  refine ⟨.queued { message with content },
    { state with messages := state.messages ++ [{ message with content }] }, ?_, ?_, ?_,
    RosterGrows.refl _ hcommand⟩
  · rw [parseCurrentTeamEvent_ok_iff]
    exact ⟨_, hread, rfl⟩
  · exact applyQueued_ok_iff.mpr ⟨hfresh, rfl⟩
  · refine { h with message := ?_ }
    intro other hother
    rcases List.mem_append.mp hother with hother | hother
    · exact h.message other hother
    · rw [List.mem_singleton.mp hother, readMessage_stable hread]
      exact ⟨rfl, uuid, huuid, hid⟩

theorem applies_delivered {messageId targetId : String}
    (hbody : markDelivered messageId targetId state = some data) :
    Applies issued (.markDelivered messageId targetId) state data := by
  rw [markDelivered] at hbody
  split at hbody
  · cases hbody
  next hfresh =>
  cases hfind : state.messages.find? fun message => message.id = messageId with
  | none =>
    rw [hfind] at hbody
    cases hbody
  | some queued =>
    simp only [hfind] at hbody
    by_cases htarget : queued.targetId = targetId
    · rw [if_neg (not_not.mpr htarget)] at hbody
      cases hbody
      have hmem := List.mem_of_find?_eq_some hfind
      have hid : queued.id = messageId := by simpa using List.find?_some hfind
      obtain ⟨rebuilt, hread⟩ := Option.isSome_iff_exists.mp (h.message queued hmem).1
      rw [readMessage] at hread
      split at hread
      · next hids =>
          obtain ⟨hmessageId, -, htargetId⟩ := hids
          rw [hid] at hmessageId
          rw [htarget] at htargetId
          refine ⟨.delivered messageId targetId,
            { state with delivered := state.delivered ++ [messageId] }, ?_, ?_, ?_,
            RosterGrows.refl _ (by simp)⟩
          · rw [parseCurrentTeamEvent_ok_iff]
            exact ⟨hmessageId, htargetId, rfl⟩
          · exact applyDelivered_ok_iff.mpr ⟨⟨queued, hfind, htarget⟩, hfresh, rfl⟩
          · refine { h with delivered := ?_ }
            intro id hmemId
            rcases List.mem_append.mp hmemId with hmemId | hmemId
            · exact h.delivered id hmemId
            · exact List.mem_singleton.mp hmemId ▸ hmessageId
      · cases hread
    · rw [if_pos htarget] at hbody
      cases hbody

end

theorem queueMessage_ok [NumberText] {config : Config} {rootId callerId target uuid : String}
    {membership : TeamMembership}
    (h : queueMessage config rootId callerId membership target content uuid state
      = .ok (some data)) :
    ∃ targetId, data = .queued ⟨"team-message-" ++ uuid, callerId, membership.name, targetId, content⟩ ∧
      (pendingFor state targetId).length < config.maxPendingMessagesPerMember ∧
      targetId ≠ callerId ∧
      (targetId = rootId ∨ ∃ member ∈ state.members, member.id = targetId) := by
  simp only [queueMessage, bind_ok_iff, reject_eq, error_bind, guard_ok_iff, pure_eq,
    Except.ok.injEq, Option.some.injEq] at h
  obtain ⟨resolved, hresolved, hself, hpending, -, rfl⟩ := h
  exact ⟨resolved.1, rfl, Nat.lt_of_not_le hpending, hself, resolveActiveMember_ok hresolved⟩

theorem applies_of_body [NumberText] {config : Config} (h : StateLaw issued state)
    {rootId uuid : String} (hroot : rootId ≠ "") (hfresh : uuid ∉ issued)
    (hready : Ready issued state.members command) (hfits : Fits command)
    (hbody : command.body config rootId uuid state = .ok (some data)) :
    Applies (issued ++ [uuid]) command state data := by
  have hmono : StateLaw (issued ++ [uuid]) state := h.mono (List.subset_append_left _ _)
  cases command with
  | createTask request =>
    simp only [Command.body, bind_ok_iff, pure_eq, Except.ok.injEq, Option.some.injEq] at hbody
    obtain ⟨task, hcreate, rfl⟩ := hbody
    exact applies_create hmono hcreate
  | updateTask callerId membership request =>
    simp only [Command.body, bind_ok_iff, pure_eq, Except.ok.injEq, Option.some.injEq] at hbody
    obtain ⟨task, hupdate, rfl⟩ := hbody
    exact applies_update hmono hroot hready hfits hupdate
  | provision member =>
    obtain ⟨hid, hphase, hissued, hother⟩ := hready
    exact applies_provision hmono ⟨hid, hphase, List.mem_append_left _ hissued, hother⟩ hbody
  | settleProvisioning member failure => exact applies_settle hmono hready hbody
  | reconcileProvisioning memberId failure => exact applies_reconcile hmono hbody
  | sendMessage callerId membership target content =>
    obtain ⟨targetId, rfl, -, -, htarget⟩ := queueMessage_ok hbody
    refine applies_queued hmono (by simp) rfl (by simp) ?_ hready ?_ hfits
    · -- the identifiers of the other messages were drawn before
      intro other hother heq
      obtain ⟨-, drawn, hdrawn, hid⟩ := h.message other hother
      rw [hid] at heq
      have huuid : drawn = uuid := String.append_right_inj _ |>.mp heq
      exact hfresh (huuid ▸ hdrawn)
    · rcases htarget with rfl | ⟨member, hmember, rfl⟩
      · exact hroot
      · exact (h.member member hmember).1
  | markDelivered messageId targetId =>
    rw [Command.body, Except.ok.injEq] at hbody
    exact applies_delivered hmono hbody

end Events

end Team

end TianmaCoder
