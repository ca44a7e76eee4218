import TianmaCoder.Team.Accepted

/-!
# The runs whose log is accepted

A journal stays readable as long as only fitting operations append: a message block outside the
decoder's grammar, or a revision beyond the safe integers, is written to the log all the same,
and the projection fails for good.

## Main definitions

* `Fitting` — the actions that append only what fits.
* `Sound` — a journal whose projection has followed every event.

## Main results

* `team_log_accepted_iff` — the runs whose log is accepted.
-/

namespace TianmaCoder

namespace Team

open Checked

/-! ### Runs -/

/-- What the action appends, if anything, is of a fitting operation. -/
def Fitting [NumberText] (config : Config) (w : World) : Action → Prop
  | .run aborted uuid => ∀ command rest data, w.waiting = command :: rest →
    command.execute config w.rootId uuid aborted w.projection = .ok (some data) → Fits command
  | _ => True

/-- The member an operation adds to the roster. -/
def provisionId : Command → Option String
  | .provision member => some member.id
  | _ => none

/-- A journal whose projection has followed every event. -/
structure Sound (w : World) : Prop where
  root : w.rootId ≠ ""
  team : w.projection.id = w.rootId
  alive : w.projection.failure = none
  folded : w.projection = w.log.foldl applyProjectionEvent (emptyTeamState w.rootId)
  law : StateLaw w.issued w.projection.toTeamState
  waiting : ∀ command ∈ w.waiting, Ready w.issued w.projection.members command
  provisions : (w.waiting.filterMap provisionId).Nodup
  spawning : ∀ member ∈ w.spawning, Rostered w.projection.members member
  flushing : ∀ member, w.flushing = some (.provision member) →
    Rostered w.projection.members member

variable {command : Command} {issued : List String}

theorem Ready.mono {issued' : List String} {members : List TeamMemberSnapshot}
    (h : Ready issued members command) (hsub : issued ⊆ issued') :
    Ready issued' members command := by
  cases command with
  | provision member => exact ⟨h.1, h.2.1, hsub h.2.2.1, h.2.2.2⟩
  | _ => exact h

/-- An operation stays ready while the roster grows by another member. -/
theorem Ready.grows {appended : Command} {old new : List TeamMemberSnapshot}
    (h : Ready issued old command) (hgrows : RosterGrows appended old new)
    (hother : ∀ id, provisionId appended = some id → provisionId command ≠ some id) :
    Ready issued new command := by
  cases command with
  | provision member =>
    refine ⟨h.1, h.2.1, h.2.2.1, ?_⟩
    intro row hrow
    rcases hgrows.added row hrow with ⟨other, hmem, hid⟩ | ⟨added, rfl, hid⟩
    · exact hid ▸ h.2.2.2 other hmem
    · intro heq
      exact hother added.id rfl (congrArg some (heq.symm.trans hid.symm))
  | settleProvisioning member failure => exact hgrows.kept member h
  | _ => exact h

variable {rootId : String} {projection : TeamProjectionState}

theorem callerId_ne_empty {callerId : String} {membership : TeamMembership} (hroot : rootId ≠ "")
    (hlaw : StateLaw issued projection.toTeamState)
    (h : tryMembership rootId projection callerId = some membership) : callerId ≠ "" := by
  rw [tryMembership] at h
  by_cases hlead : callerId = rootId
  · rwa [hlead]
  · rw [if_neg hlead] at h
    split at h
    · cases h
    · cases hfind : projection.members.find? fun candidate => candidate.id = callerId with
      | none =>
        rw [hfind] at h
        cases h
      | some member =>
        have hid : member.id = callerId := by simpa using List.find?_some hfind
        rw [← hid]
        exact (hlaw.member member (List.mem_of_find?_eq_some hfind)).1

theorem spawnMember_ok {membership : TeamMembership} {request : SpawnTeammateRequest}
    {childId : String} {member : TeamMemberSnapshot}
    (h : spawnMember membership request childId = .ok member) :
    member.id = childId ∧ member.phase = .provisioning := by
  simp only [spawnMember, reject_eq, error_bind, guard_ok_iff, bind_ok_iff, pure_eq,
    Except.ok.injEq] at h
  obtain ⟨-, _, -, _, -, _, -, rfl⟩ := h
  exact ⟨rfl, rfl⟩

namespace Sound

variable {w w' : World}

/-- A ready operation that provisions nobody may be queued. -/
theorem enqueue (h : Sound w) (hready : Ready w.issued w.projection.members command)
    (hnobody : provisionId command = none) : Sound (w.enqueue command) :=
  { h with
    waiting := by
      intro other hother
      rcases List.mem_append.mp hother with hother | hother
      · exact h.waiting other hother
      · exact List.mem_singleton.mp hother ▸ hready
    provisions := by
      simpa [World.enqueue, hnobody] using h.provisions }

/-- More identifiers may be drawn. -/
theorem issue (h : Sound w) (uuid : String) : Sound { w with issued := w.issued ++ [uuid] } :=
  { h with
    law := h.law.mono (List.subset_append_left _ _)
    waiting := fun command hcommand => (h.waiting command hcommand).mono (List.subset_append_left _ _) }

/-- A new teammate under a fresh identifier may be queued. -/
theorem provision (h : Sound w) {uuid : String} (hfresh : w.Fresh uuid) {member : TeamMemberSnapshot}
    (hid : member.id = uuid) (hphase : member.phase = .provisioning) :
    Sound ({ w with issued := w.issued ++ [uuid] }.enqueue (.provision member)) :=
  { h.issue uuid with
    waiting := by
      intro other hother
      rcases List.mem_append.mp hother with hother | hother
      · exact (h.issue uuid).waiting other hother
      · rw [List.mem_singleton.mp hother]
        refine ⟨hid ▸ hfresh.1, hphase, by simp [World.enqueue, hid], ?_⟩
        intro row hrow heq
        exact hfresh.2 (hid ▸ heq ▸ (h.law.member row hrow).2)
    provisions := by
      have hnew : member.id ∉ w.waiting.filterMap provisionId := by
        intro hmem
        obtain ⟨command, hcommand, hprovision⟩ := List.mem_filterMap.mp hmem
        cases command with
        | provision other =>
          simp only [provisionId, Option.some.injEq] at hprovision
          exact hfresh.2 (hid ▸ hprovision ▸ (h.waiting _ hcommand).2.2.1)
        | _ => cases hprovision
      rw [World.enqueue, List.filterMap_append]
      refine List.Nodup.append h.provisions (by simp [provisionId]) ?_
      simpa [provisionId] using hnew }

/-- The queue without its first operation. -/
theorem dequeue (h : Sound w) {rest : List Command} (hwaiting : w.waiting = command :: rest)
    (uuid : String) : Sound { w with waiting := rest, issued := w.issued ++ [uuid] } :=
  { h.issue uuid with
    waiting := by
      intro other hother
      exact (h.issue uuid).waiting other (by simp [hwaiting, hother])
    provisions := by
      have hprovisions := h.provisions
      rw [hwaiting, List.filterMap_cons] at hprovisions
      split at hprovisions
      · exact hprovisions
      · exact (List.nodup_cons.mp hprovisions).2 }

theorem settle (h : Sound w) (command : Command) (result : Except CommandFailure Unit) :
    Sound (w.settle command result) :=
  { h with }

/-- The first operation appends an event that the projection accepts. -/
theorem append [NumberText] {config : Config} (h : Sound w) {rest : List Command}
    (hwaiting : w.waiting = command :: rest) {uuid : String} (hfresh : w.Fresh uuid)
    {aborted : Bool} {data : TeamEventData} (hfits : Fits command)
    (hexecute : command.execute config w.rootId uuid aborted w.projection = .ok (some data)) :
    Sound { ({ w with waiting := rest, issued := w.issued ++ [uuid] } : World).append data with
      flushing := some command } := by
  have hready := h.waiting command (by simp [hwaiting])
  obtain ⟨decoded, next, hdecoded, happly, hlaw, hgrows⟩ :=
    applies_of_body h.law h.root hfresh.2 hready hfits (execute_ok hexecute).2
  have hprojection : applyProjectionEvent w.projection ⟨2, w.rootId, data⟩
      = { toTeamState := next, failure := none } := by
    have htransition : transition w.projection.toTeamState ⟨2, w.rootId, data⟩ = .ok next := by
      rw [transition_ok_iff h.team.symm rfl]
      exact ⟨h.law.id, decoded, h.team ▸ hdecoded, happly⟩
    rw [applyProjectionEvent, h.alive, htransition]
    rfl
  have hdequeue := h.dequeue hwaiting uuid
  have hid := id_of_applyProjectionEvent w.projection ⟨2, w.rootId, data⟩
  constructor
  · exact h.root
  · exact hid.trans h.team
  · simp only [World.append, hprojection]
  · simp only [World.append, List.foldl_append, List.foldl_cons, List.foldl_nil]
    exact congrArg (applyProjectionEvent · _) h.folded
  · simp only [World.append, hprojection]
    exact hlaw
  · intro other hother
    simp only [World.append, hprojection]
    refine (hdequeue.waiting other hother).grows hgrows ?_
    -- no two queued operations provision one member
    intro id hcommand hsame
    have hprovisions := h.provisions
    rw [hwaiting, List.filterMap_cons, hcommand] at hprovisions
    exact (List.nodup_cons.mp hprovisions).1 (List.mem_filterMap.mpr ⟨other, hother, hsame⟩)
  · exact hdequeue.provisions
  · intro member hmember
    simp only [World.append, hprojection]
    exact hgrows.kept member (h.spawning member hmember)
  · intro member hmember
    simp only [World.append, hprojection]
    exact hgrows.provisioned member (Option.some.inj hmember)

/-- The flush of the appended event settles. -/
theorem finishFlush (h : Sound w) (hflushing : w.flushing = some command) (ok : Bool) :
    Sound (w.finishFlush command ok) := by
  have hnone : Sound { w with flushing := none } := { h with flushing := by simp }
  cases ok with
  | false => exact hnone.settle command _
  | true =>
    cases command with
    | provision member =>
      refine { hnone.settle (.provision member) (.ok ()) with spawning := ?_ }
      intro other hother
      rcases List.mem_append.mp hother with hother | hother
      · exact h.spawning other hother
      · exact List.mem_singleton.mp hother ▸ h.flushing member hflushing
    | _ => exact hnone.settle _ _

/-- One action in which only fitting operations append. -/
theorem step [NumberText] {config : Config} (h : Sound w) {action : Action}
    (hfitting : Fitting config w action) (hstep : w.step config action = some w') : Sound w' := by
  cases action with
  | createTask callerId request =>
    rw [World.step] at hstep
    split at hstep
    · cases hstep
      exact h
    · cases hstep
      exact h.enqueue trivial rfl
  | updateTask callerId request =>
    rw [World.step] at hstep
    split at hstep
    · cases hstep
      exact h
    · next membership hmember =>
        cases hstep
        exact h.enqueue (callerId_ne_empty h.root h.law hmember) rfl
  | spawnTeammate callerId request uuid =>
    rw [World.step] at hstep
    split at hstep
    · next hfresh =>
        split at hstep
        · cases hstep
          exact h
        · split at hstep
          · cases hstep
            exact h
          · next member hmember =>
              cases hstep
              obtain ⟨hid, hphase⟩ := spawnMember_ok hmember
              exact h.provision hfresh hid hphase
    · cases hstep
  | sendMessage callerId target content =>
    rw [World.step] at hstep
    split at hstep
    · cases hstep
      exact h
    · next membership hmember =>
        cases hstep
        exact h.enqueue (callerId_ne_empty h.root h.law hmember) rfl
  | started member failure =>
    rw [World.step] at hstep
    split at hstep
    · next hmember =>
        cases hstep
        have herase : Sound { w with spawning := w.spawning.erase member } :=
          { h with spawning := fun other hother => h.spawning other (List.mem_of_mem_erase hother) }
        exact herase.enqueue (h.spawning member hmember) rfl
    · cases hstep
  | reconcile memberId failure =>
    cases hstep
    exact h.enqueue trivial rfl
  | acknowledge messageId targetId =>
    cases hstep
    exact h.enqueue trivial rfl
  | run aborted uuid =>
    obtain ⟨command, rest, -, hwaiting, hfresh, hrun⟩ := World.run_cases hstep
    rcases hrun with ⟨result, -, -, rfl⟩ | ⟨data, hexecute, rfl⟩
    · exact (h.dequeue hwaiting uuid).settle command result
    · exact h.append hwaiting hfresh (hfitting command rest data hwaiting hexecute) hexecute
  | flushed ok =>
    rw [World.step] at hstep
    split at hstep
    · cases hstep
    · next command hflushing =>
        cases hstep
        exact h.finishFlush hflushing ok

end Sound

theorem Sound.init (hroot : rootId ≠ "") : Sound (World.init rootId) where
  root := hroot
  team := rfl
  alive := rfl
  folded := rfl
  law := by
    constructor
    · exact hroot
    all_goals simp [World.init, emptyTeamState, isPositiveSafe, Json.maxSafeInteger]
  waiting := by simp [World.init]
  provisions := by simp [World.init]
  spawning := by simp [World.init]
  flushing := by simp [World.init]

section Runs

variable [NumberText] {config : Config} {w w' : World}

theorem failure_of_unfit {uuid : String} {aborted : Bool} {data : TeamEventData}
    (hteam : projection.id = rootId) (hunfit : ¬Fits command)
    (hexecute : command.execute config rootId uuid aborted projection = .ok (some data)) :
    (applyProjectionEvent projection ⟨2, rootId, data⟩).failure.isSome = true := by
  obtain ⟨halive, hbody⟩ := execute_ok hexecute
  have hrefused : ∀ decoded, parseCurrentTeamEvent ⟨2, rootId, data⟩ ≠ .ok decoded := by
    intro decoded hdecoded
    rw [parseCurrentTeamEvent_ok_iff] at hdecoded
    cases command with
    | updateTask callerId membership request =>
      obtain ⟨_, _, _, task, hcommand, -, hdata, hupdate⟩ := body_of_updateKey rfl hbody
      cases hcommand
      cases hdata
      obtain ⟨current, hu⟩ := updateTask_ok hupdate
      simp only [acceptsTask, Bool.and_eq_true, isPositiveSafe_iff] at hdecoded
      obtain ⟨⟨⟨⟨-, -, hsafe⟩, -⟩, -⟩, -⟩ := hdecoded
      have hrevision := hu.revision
      have hexpected := hu.expected
      refine hunfit ?_
      rw [Fits]
      omega
    | sendMessage callerId membership target content =>
      obtain ⟨targetId, rfl, -⟩ := queueMessage_ok hbody
      obtain ⟨rebuilt, hread, -⟩ := hdecoded
      rw [readMessage] at hread
      split at hread
      · rw [Option.map_eq_some_iff] at hread
        obtain ⟨content', hcontent, -⟩ := hread
        exact hunfit (mapM_isSome.mp (Option.isSome_iff_exists.mpr ⟨content', hcontent⟩))
      · cases hread
    | _ => exact hunfit trivial
  have htransition : ∀ next, transition projection.toTeamState ⟨2, rootId, data⟩ ≠ .ok next := by
    intro next hnext
    obtain ⟨-, decoded, hdecoded, -⟩ := (transition_ok_iff hteam.symm rfl).mp hnext
    exact hrefused decoded hdecoded
  rw [applyProjectionEvent, halive]
  cases hresult : transition projection.toTeamState ⟨2, rootId, data⟩ with
  | ok next => exact absurd hresult (htransition next)
  | error failure => rfl

theorem failure_none_iff {action : Action} (h : w.projection.failure = none → Sound w)
    (hstep : w.step config action = some w') :
    w'.projection.failure = none ↔ w.projection.failure = none ∧ Fitting config w action := by
  constructor
  · intro hnone
    rcases World.step_cases hstep with ⟨hprojection, -, -, -, hidle⟩ |
      ⟨aborted, uuid, command, rest, data, rfl, hwaiting, -, -, hexecute, rfl⟩
    · refine ⟨hprojection ▸ hnone, ?_⟩
      cases action with
      | run aborted uuid =>
        intro command rest data hwaiting hexecute
        obtain ⟨command', rest', -, hwaiting', -, hrun⟩ := World.run_cases hstep
        rw [hwaiting] at hwaiting'
        cases hwaiting'
        rcases hrun with ⟨_, hreject, -⟩ | ⟨data', -, rfl⟩
        · exact absurd hexecute (hreject data)
        · cases hidle aborted uuid rfl
      | _ => trivial
    · have halive := (execute_ok hexecute).1
      refine ⟨halive, ?_⟩
      intro command' rest' data' hwaiting' hexecute'
      rw [hwaiting] at hwaiting'
      cases hwaiting'
      by_contra hunfit
      have hfailed := failure_of_unfit (h halive).team hunfit hexecute
      rw [show applyProjectionEvent w.projection ⟨2, w.rootId, data⟩ = _ from rfl] at hfailed
      exact absurd (show (applyProjectionEvent w.projection ⟨2, w.rootId, data⟩).failure = none
        from hnone) (Option.isSome_iff_ne_none.mp hfailed)
  · rintro ⟨halive, hfitting⟩
    exact ((h halive).step hfitting hstep).alive

variable {actions : List Action}

theorem sound_of_run (hroot : rootId ≠ "")
    (hrun : Transition.run (World.step config) (World.init rootId) actions = some w) :
    w.projection.failure = none → Sound w := by
  refine Transition.run_induction (motive := fun w => w.projection.failure = none → Sound w) ?_
    (fun _ => Sound.init hroot) hrun
  intro s action t hs hstep hnone
  obtain ⟨halive, hfitting⟩ := (failure_none_iff hs hstep).mp hnone
  exact (hs halive).step hfitting hstep

theorem failure_none_iff_guarded (hroot : rootId ≠ "")
    (hrun : Transition.run (World.step config) (World.init rootId) actions = some w) :
    w.projection.failure = none ↔
      Transition.Guarded (World.step config) (Fitting config) (World.init rootId) actions := by
  have hsound : ∀ (s : World) action t, (s.projection.failure = none → Sound s) →
      World.step config s action = some t → t.projection.failure = none → Sound t := by
    intro s action t hs hstep hnone
    obtain ⟨halive, hfitting⟩ := (failure_none_iff hs hstep).mp hnone
    exact (hs halive).step hfitting hstep
  have hiff : w.projection.failure = none ↔ (World.init rootId).projection.failure = none ∧
      Transition.Guarded (World.step config) (Fitting config) (World.init rootId) actions :=
    Transition.run_iff_guarded hsound (fun s action t hs hstep => failure_none_iff hs hstep)
      (fun _ => Sound.init hroot) hrun
  exact hiff.trans (and_iff_right rfl)

/-- The log of a team is accepted: the projection has not failed, it is the fold of the log, its
own schema accepts it, and an operation that rejects before its append has left both alone. -/
structure LogAccepted (config : Config) (w : World) : Prop where
  alive : w.projection.failure = none
  folded : w.projection = w.log.foldl applyProjectionEvent (emptyTeamState w.rootId)
  schema : acceptsState w.projection = true
  rejected : ∀ aborted uuid w', w.step config (.run aborted uuid) = some w' → w'.flushing = none →
    w'.log = w.log ∧ w'.projection = w.projection

/-- An operation that rejects before its append leaves the log and the projection alone. -/
theorem rejected_unchanged {aborted : Bool} {uuid : String}
    (hstep : w.step config (.run aborted uuid) = some w') (hflushing : w'.flushing = none) :
    w'.log = w.log ∧ w'.projection = w.projection := by
  rcases World.step_cases hstep with ⟨hprojection, -, hlog, -, -⟩ |
    ⟨_, _, _, _, _, -, -, -, -, -, rfl⟩
  · exact ⟨hlog, hprojection⟩
  · cases hflushing

omit [NumberText] in
theorem id_of_schema (h : acceptsState projection = true) : projection.id ≠ "" := by
  simp only [acceptsState, Bool.and_eq_true, decide_eq_true_eq] at h
  exact h.1.1.1.1.1

theorem rootId_of_run
    (hrun : Transition.run (World.step config) (World.init rootId) actions = some w) :
    w.rootId = rootId := by
  refine Transition.run_induction (motive := fun w => w.rootId = rootId) ?_ rfl hrun
  intro s action t hs hstep
  rcases World.step_cases hstep with ⟨-, hroot, -⟩ | ⟨_, _, _, _, _, -, -, -, -, -, rfl⟩
  · exact hroot.trans hs
  · exact hs

/-- The commands of a team keep its log accepted exactly when the lead has a session id, and every
message that is queued consists of blocks of the decoder's grammar and every update that is
appended expects a revision below the greatest safe integer. -/
theorem team_log_accepted_iff {rootId : String} {actions : List Action}
    (hrun : Transition.run (World.step config) (World.init rootId) actions = some w) :
    LogAccepted config w ↔ rootId ≠ "" ∧
      Transition.Guarded (World.step config) (Fitting config) (World.init rootId) actions := by
  have hkept := Kept.run hrun
  have hroot := rootId_of_run hrun
  constructor
  · intro h
    have hne : rootId ≠ "" := by
      rw [← hroot, ← hkept.team]
      exact id_of_schema h.schema
    exact ⟨hne, (failure_none_iff_guarded hne hrun).mp h.alive⟩
  · rintro ⟨hne, hguarded⟩
    have halive := (failure_none_iff_guarded hne hrun).mpr hguarded
    have hs := sound_of_run hne hrun halive
    exact ⟨halive, hs.folded, hs.law.acceptsState, fun _ _ _ => rejected_unchanged⟩

end Runs

/-- A lead and a teammate that has started. -/
def spawned : List Action :=
  [.spawnTeammate "root" ⟨"ada", "maps the code", .fresh, "local"⟩ "u1", .run false "u2",
    .flushed true, .started ⟨"u1", "ada", "maps the code", "local", .fresh, .provisioning, none⟩ none,
    .run false "u3", .flushed true]

/-- An image that was scaled down keeps the dimensions it had, which the decoder does not know. -/
theorem scaled_image_fails : let config : Config := ⟨4, 4, 4, 1000⟩
    let _ : NumberText := ⟨fun _ => 0, fun _ => 0⟩
    let image : Json := .obj [("type", .str "image"), ("attachment", .obj [
      ("attachmentId", .str "a"), ("mediaType", .str "image/png"), ("bytes", .int 10),
      ("width", .int 4), ("height", .int 4),
      ("originalDimensions", .obj [("width", .int 8), ("height", .int 8)])])]
    ∃ w, Transition.run (World.step config) (World.init "root")
        (spawned ++ [.sendMessage "root" "ada" [image], .run false "u4", .flushed true]) = some w ∧
      w.projection.failure = some "persisted Agent Teams team/message/queued payload is invalid" ∧
      ¬LogAccepted config w := by
  intro config _ image
  have hrun : (Transition.run (World.step config) (World.init "root")
      (spawned ++ [.sendMessage "root" "ada" [image], .run false "u4", .flushed true])).map
        (fun w => w.projection.failure)
      = some (some "persisted Agent Teams team/message/queued payload is invalid") := by decide
  obtain ⟨w, hw, hfailure⟩ := Option.map_eq_some_iff.mp hrun
  refine ⟨w, hw, hfailure, ?_⟩
  intro h
  have halive := h.alive
  rw [hfailure] at halive
  cases halive

/-- A plain message keeps the log accepted. -/
theorem team_log_accepted_iff_text : let config : Config := ⟨4, 4, 4, 1000⟩
    let _ : NumberText := ⟨fun _ => 0, fun _ => 0⟩
    let text : Json := .obj [("type", .str "text"), ("text", .str "hello")]
    let actions := spawned ++ [.sendMessage "root" "ada" [text], .run false "u4", .flushed true]
    ∃ w, Transition.run (World.step config) (World.init "root") actions = some w ∧
      Transition.Guarded (World.step config) (Fitting config) (World.init "root") actions := by
  intro config _ text actions
  have hrun : (Transition.run (World.step config) (World.init "root") actions).map
      (fun w => (w.projection.failure, acceptsState w.projection,
        decide (w.projection = w.log.foldl applyProjectionEvent (emptyTeamState w.rootId))))
      = some (none, true, true) := by decide
  obtain ⟨w, hw, hstate⟩ := Option.map_eq_some_iff.mp hrun
  simp only [Prod.mk.injEq, decide_eq_true_eq] at hstate
  obtain ⟨halive, hschema, hfolded⟩ := hstate
  have haccepted : LogAccepted config w :=
    ⟨halive, hfolded, hschema, fun _ _ _ => rejected_unchanged⟩
  exact ⟨w, hw, ((team_log_accepted_iff hw).mp haccepted).2⟩

end Team

end TianmaCoder
