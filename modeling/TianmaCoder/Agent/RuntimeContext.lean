import TianmaCoder.Session.SurfaceStep
import TianmaCoder.Tokens.Estimate

/-!
# The retained runtime-context snapshot

The loop keeps one snapshot of its runtime context on the surface. It restores which one from
the log, from the newest event back, and then follows the session: an owned message is the new
snapshot, and a replacement that cites the retained one drops it. The restored snapshot is the
newest one on the surface. The followed one is the newest one of all, or none once it is cited,
also where an earlier one is still on the surface.

## Main definitions

* `restore`, `observe`, `project` — the projection.
* `followed` — the snapshot that the live projection follows last.

## Main results

* `resumed_iff` — when following the log and restoring from it come to the same.
-/

namespace TianmaCoder

namespace RuntimeContext

open Checked

def SOURCE : String := "runtime-context"

def CLEARED : String :=
  "Current runtime context: none. Earlier runtime-context snapshots no longer apply."

/-- A user message of this projection. -/
def isOwned (event : SessionEvent) : Bool :=
  event.type == .userMessage && event.data.path ["source", "kind"] == some (.str SOURCE)

/-- The text of a message of one text block. -/
def textOf (message : Json) : Option String :=
  match contentOf message with
  | [block] =>
    if block.get? "type" = some (.str "text") then Json.str? (block.get? "text") else none
  | _ => none

structure Snapshot where
  seq : ℕ
  text : Option String
  deriving DecidableEq

def snapshotOf (event : SessionEvent) : Snapshot := ⟨event.seq, textOf event.data⟩

/-- Absent while no snapshot ever existed; `some none` means none is retained. -/
abbrev Retained := Option (Option Snapshot)

/-- The loop of the constructor over the events, the newest first. -/
def scan (nodes : List ℕ) (retained : Retained) : List SessionEvent → Retained
  | [] => retained
  | event :: older =>
    if ¬isOwned event then scan nodes retained older
    else if event.seq ∈ nodes then some (some (snapshotOf event))
    else scan nodes (some retained.join) older

/-- Restore projection state from a log with the given surface. -/
def restore (nodes : List ℕ) (log : List SessionEvent) : Retained := scan nodes none log.reverse

/-- Follow one authoritative session event. -/
def observe (retained : Retained) (event : SessionEvent) : Retained :=
  if isOwned event then some (some (snapshotOf event))
  else
    match retained with
    | some (some snapshot) =>
      if event.isReplacement && event.cites snapshot.seq then some none else retained
    | _ => retained

/-- Create an uncommitted snapshot, under a fresh id, only when the retained value differs. -/
def project (id : String) (retained : Retained) (current : String) (sections : List Json) :
    Option Json :=
  if retained = none ∧ current.length = 0 then none
  else
    let snapshot := if current.length = 0 then CLEARED else current
    if retained.join.bind Snapshot.text = some snapshot then none
    else some (.obj [
      ("content", .arr [.obj [("type", .str "text"), ("text", .str snapshot)]]),
      ("source",
        if sections.length = 0 then .obj [("kind", .str SOURCE)]
        else .obj [("kind", .str SOURCE), ("form", .str "snapshot"), ("sections", .arr sections)]),
      ("role", .str "user"), ("id", .str id)])

/-! ## The restored snapshot -/

variable {nodes : List ℕ} {log rest : List SessionEvent} {event : SessionEvent}

/-- The newest owned event on the surface. -/
def newestOnSurface (nodes : List ℕ) (log : List SessionEvent) : Option SessionEvent :=
  log.reverse.find? fun event => isOwned event && decide (event.seq ∈ nodes)

/-- The newest owned event of all. -/
def newestOwned (log : List SessionEvent) : Option SessionEvent := log.reverse.find? isOwned

theorem scan_eq (newest : List SessionEvent) (retained : Retained) (hnull : retained.join = none) :
    scan nodes retained newest
      = match newest.find? fun event => isOwned event && decide (event.seq ∈ nodes) with
        | some event => some (some (snapshotOf event))
        | none => if retained = none ∧ newest.all (fun event => !isOwned event) then none
            else some none := by
  induction newest generalizing retained with
  | nil =>
    cases retained with
    | none => rfl
    | some value =>
      simp only [Option.join_some] at hnull
      rw [hnull]
      rfl
  | cons event older ih =>
    by_cases howned : isOwned event = true
    · by_cases hmem : event.seq ∈ nodes
      · simp [scan, howned, hmem]
      · simp only [scan, howned, not_true_eq_false, if_false, List.find?_cons, hmem, decide_false, Bool.and_false, List.all_cons, Bool.not_true, Bool.false_and,
          Bool.false_eq_true, and_false]
        rw [ih _ (by rw [hnull]; rfl)]
        cases older.find? fun event => isOwned event && decide (event.seq ∈ nodes) <;> simp
    · rw [Bool.not_eq_true] at howned
      simp only [scan, howned, Bool.false_eq_true, not_false_eq_true, if_true, List.find?_cons,
        Bool.false_and, List.all_cons, Bool.not_false, Bool.true_and]
      exact ih retained hnull

/-- The restored snapshot is the newest one on the surface. -/
theorem restore_eq (nodes : List ℕ) (log : List SessionEvent) :
    restore nodes log
      = match newestOnSurface nodes log with
        | some event => some (some (snapshotOf event))
        | none => if newestOwned log = none then none else some none := by
  rw [restore, scan_eq _ _ rfl, newestOnSurface, newestOwned]
  cases log.reverse.find? fun event => isOwned event && decide (event.seq ∈ nodes) with
  | some event => rfl
  | none =>
    simp only [true_and, List.find?_eq_none, List.all_eq_true, Bool.not_eq_true']
    simp only [Bool.not_eq_true]

/-! ## Following the log -/

/-- The live projection: restored from the events before it was created, then following. -/
def live (nodes : List ℕ) (before rest : List SessionEvent) : Retained :=
  rest.foldl observe (restore nodes before)

/-- The snapshot that the live projection followed last. -/
def followed (nodes : List ℕ) (before rest : List SessionEvent) : Option SessionEvent :=
  (newestOwned rest).or (newestOnSurface nodes before)

/-- A later replacement cites the followed snapshot. -/
def Cited (rest : List SessionEvent) (event : SessionEvent) : Prop :=
  ∃ later ∈ rest, later.isReplacement = true ∧ later.cites event.seq = true

theorem newestOwned_snoc (log : List SessionEvent) (event : SessionEvent) :
    newestOwned (log ++ [event]) = if isOwned event then some event else newestOwned log := by
  rw [newestOwned, List.reverse_append, List.reverse_singleton, List.singleton_append,
    List.find?_cons]
  cases isOwned event <;> rfl

theorem newestOnSurface_snoc (nodes : List ℕ) (log : List SessionEvent) (event : SessionEvent) :
    newestOnSurface nodes (log ++ [event])
      = if isOwned event = true ∧ event.seq ∈ nodes then some event
        else newestOnSurface nodes log := by
  rw [newestOnSurface, List.reverse_append, List.reverse_singleton, List.singleton_append,
    List.find?_cons]
  by_cases hevent : isOwned event = true ∧ event.seq ∈ nodes
  · rw [if_pos hevent, hevent.1, decide_eq_true hevent.2]
    rfl
  · rw [if_neg hevent]
    have hfalse : (isOwned event && decide (event.seq ∈ nodes)) = false := by
      rw [Bool.eq_false_iff, ne_eq, Bool.and_eq_true, decide_eq_true_iff]
      exact hevent
    rw [hfalse]
    rfl

/-- An event found on the surface is still the newest one on a smaller surface that has it. -/
theorem newestOnSurface_of_subset {next : List ℕ} (h : newestOnSurface nodes log = some event)
    (hmem : event.seq ∈ next) (hsub : ∀ older ∈ log, older.seq ∈ next → older.seq ∈ nodes) :
    newestOnSurface next log = some event := by
  induction log using List.reverseRecOn with
  | nil => cases h
  | append_singleton log last ih =>
    rw [newestOnSurface_snoc] at h ⊢
    by_cases hlast : isOwned last = true ∧ last.seq ∈ nodes
    · rw [if_pos hlast] at h
      cases h
      rw [if_pos ⟨hlast.1, hmem⟩]
    · rw [if_neg hlast] at h
      have hnext : ¬(isOwned last = true ∧ last.seq ∈ next) := by
        rintro ⟨howned, hin⟩
        exact hlast ⟨howned, hsub last (List.mem_append_right _ (List.mem_singleton_self _)) hin⟩
      rw [if_neg hnext]
      exact ih h fun older holder =>
        hsub older (List.mem_append_left _ holder)

variable {projections : List SessionMessageProjection}

/-- What the live projection retains while the log is followed. -/
structure Following (nodes : List ℕ) (before rest : List SessionEvent) (current : List ℕ) :
    Prop where
  /-- The followed snapshot, unless it is cited. -/
  retained : ∀ event, followed nodes before rest = some event → ¬Cited rest event →
    live nodes before rest = some (some (snapshotOf event)) ∧
      newestOnSurface current (before ++ rest) = some event
  dropped : ∀ event, followed nodes before rest = some event → Cited rest event →
    live nodes before rest = some none
  absent : followed nodes before rest = none →
    newestOnSurface current (before ++ rest) = none ∧
      live nodes before rest = if newestOwned (before ++ rest) = none then none else some none

theorem newestOnSurface_eq_none :
    newestOnSurface nodes log = none ↔ ∀ event ∈ log, isOwned event = true → event.seq ∉ nodes := by
  rw [newestOnSurface, List.find?_eq_none]
  constructor
  · intro h event hmem howned hin
    exact h event (List.mem_reverse.mpr hmem) (by rw [howned, decide_eq_true hin]; rfl)
  · intro h event hmem hboth
    rw [Bool.and_eq_true, decide_eq_true_iff] at hboth
    exact h event (List.mem_reverse.mp hmem) hboth.1 hboth.2

theorem eligible_of_isOwned (h : isOwned event = true) : event.type.isSurfaceEligible = true := by
  rw [isOwned, Bool.and_eq_true, beq_iff_eq] at h
  rw [h.1]
  rfl

variable {before : List SessionEvent}

/-- An owned event is followed and on the surface. -/
theorem following_owned {current : List ℕ} (howned : isOwned event = true)
    (hmem : event.seq ∈ current) (huncited : ¬Cited (rest ++ [event]) event) :
    Following nodes before (rest ++ [event]) current := by
  have hfollowed : followed nodes before (rest ++ [event]) = some event := by
    rw [followed, newestOwned_snoc, if_pos howned]
    rfl
  have hlive : live nodes before (rest ++ [event]) = some (some (snapshotOf event)) := by
    rw [live, List.foldl_append]
    simp only [List.foldl_cons, List.foldl_nil, observe]
    rw [if_pos howned]
  constructor
  · intro found hfound _
    rw [hfollowed] at hfound
    cases hfound
    refine ⟨hlive, ?_⟩
    rw [← List.append_assoc, newestOnSurface_snoc, if_pos ⟨howned, hmem⟩]
  · intro found hfound hcited
    rw [hfollowed] at hfound
    cases hfound
    exact absurd hcited huncited
  · intro hnone
    rw [hfollowed] at hnone
    cases hnone

/-- An event of another owner keeps the followed snapshot, or cites it. -/
theorem Following.other {current next : List ℕ} (h : Following nodes before rest current)
    (howned : isOwned event = false) (hstep : NodesStep event current next)
    (hlater : ∀ older ∈ before ++ rest, older.seq < event.seq) :
    Following nodes before (rest ++ [event]) next := by
  have hfollowed : followed nodes before (rest ++ [event]) = followed nodes before rest := by
    rw [followed, newestOwned_snoc, howned]
    rfl
  have hlive : live nodes before (rest ++ [event]) = observe (live nodes before rest) event := by
    rw [live, List.foldl_append]
    rfl
  have hsurface : ∀ nodes, newestOnSurface nodes (before ++ (rest ++ [event]))
      = newestOnSurface nodes (before ++ rest) := by
    intro nodes
    rw [← List.append_assoc, newestOnSurface_snoc, howned]
    simp
  have hsub : ∀ older ∈ before ++ rest, older.seq ∈ next → older.seq ∈ current := by
    intro older holder hin
    rcases hstep.mem_or_eq hin with hold | hsame
    · exact hold
    · exact absurd hsame (Nat.ne_of_lt (hlater older holder))
  have hcited : ∀ found, Cited (rest ++ [event]) found ↔
      Cited rest found ∨ event.isReplacement = true ∧ event.cites found.seq = true := by
    intro found
    simp [Cited, or_and_right, exists_or]
  constructor
  · intro found hfound huncited
    rw [hfollowed] at hfound
    rw [hcited, not_or] at huncited
    obtain ⟨hretained, hnewest⟩ := h.retained found hfound huncited.1
    constructor
    · rw [hlive, hretained]
      simp only [observe, howned, Bool.false_eq_true, if_false]
      rw [if_neg]
      rw [Bool.and_eq_true]
      exact huncited.2
    · rw [hsurface]
      refine newestOnSurface_of_subset hnewest ?_ hsub
      have hin : found.seq ∈ current := by
        have hfind := List.find?_some hnewest
        rw [Bool.and_eq_true, decide_eq_true_iff] at hfind
        exact hfind.2
      by_contra hgone
      exact huncited.2 (hstep.cites_of_gone hin hgone)
  · intro found hfound hsnoc
    rw [hfollowed] at hfound
    rw [hlive]
    by_cases hold : Cited rest found
    · rw [h.dropped found hfound hold]
      simp only [observe, howned, Bool.false_eq_true, if_false]
    · obtain ⟨hretained, -⟩ := h.retained found hfound hold
      have hnow := ((hcited found).mp hsnoc).resolve_left hold
      rw [hretained]
      simp only [observe, howned, Bool.false_eq_true, if_false]
      rw [if_pos]
      rw [Bool.and_eq_true]
      exact hnow
  · intro hnone
    rw [hfollowed] at hnone
    obtain ⟨hsurfaceNone, hretained⟩ := h.absent hnone
    constructor
    · rw [hsurface, newestOnSurface_eq_none]
      rw [newestOnSurface_eq_none] at hsurfaceNone
      intro older holder hownedOlder hin
      exact hsurfaceNone older holder hownedOlder (hsub older holder hin)
    · rw [hlive, hretained, ← List.append_assoc, newestOwned_snoc, howned]
      simp only [Bool.false_eq_true, if_false]
      split <;> simp [observe, howned]

theorem following (hdeclared : DeclaredProjections projections)
    {start acc : SurfaceFoldState × List SurfaceFoldReplacement}
    (hbefore : foldSurfaceState before projections = .ok start)
    (hlog : foldSurfaceState (before ++ rest) projections = .ok acc) :
    Following start.1.nodes before rest acc.1.nodes := by
  induction rest using List.reverseRecOn generalizing acc with
  | nil =>
    rw [List.append_nil, hbefore] at hlog
    cases hlog
    have hfollowed : followed start.1.nodes before [] = newestOnSurface start.1.nodes before := rfl
    constructor
    · intro event hevent _
      rw [hfollowed] at hevent
      refine ⟨?_, by rw [List.append_nil]; exact hevent⟩
      rw [live, List.foldl_nil, restore_eq, hevent]
    · rintro event - ⟨later, hlater, -⟩
      cases hlater
    · intro hnone
      rw [hfollowed] at hnone
      refine ⟨by rw [List.append_nil]; exact hnone, ?_⟩
      rw [live, List.foldl_nil, restore_eq, hnone, List.append_nil]
  | append_singleton rest event ih =>
    have hfull := hlog
    rw [← List.append_assoc] at hlog hfull
    obtain ⟨acc₁, plan, hlog₁, hplan, rfl⟩ := foldSurfaceState_snoc_ok_iff.mp hlog
    have hstep := nodesStep_of_plan hdeclared hplan
    have hseq : event.seq = (before ++ rest).length := (planSurfaceEvent_cases hplan).1
    have hlater : ∀ older ∈ before ++ rest, older.seq < event.seq := by
      intro older holder
      rw [hseq]
      exact seq_lt_of_mem hlog₁ holder
    cases howned : isOwned event with
    | true =>
      refine following_owned howned (hstep.mem_of_eligible (eligible_of_isOwned howned)) ?_
      rintro ⟨later, hmem, hreplace, hcites⟩
      have hmem' : later ∈ before ++ rest ++ [event] := by
        rw [List.append_assoc]
        exact List.mem_append_right _ hmem
      have hlt := lt_of_mem_cites hfull hmem' hreplace hcites
      rcases List.mem_append.mp hmem' with hold | hnew
      · have hold := hlater later hold
        omega
      · rw [List.mem_singleton] at hnew
        rw [hnew] at hlt
        omega
    | false => exact (ih hlog₁).other howned hstep hlater

/-! ## Resuming -/

/-- A live projection and one that is restored from the finished log. -/
structure Resumed (nodes : List ℕ) (before rest : List SessionEvent) (current : List ℕ) :
    Prop where
  agree : live nodes before rest = restore current (before ++ rest)
  newest : ∀ event, newestOnSurface current (before ++ rest) = some event →
    live nodes before rest = some (some (snapshotOf event))
  nothing : newestOnSurface current (before ++ rest) = none → (live nodes before rest).join = none
  proposes : ∀ id text sections, project id (live nodes before rest) text sections
    = project id (restore current (before ++ rest)) text sections

theorem newestOwned_ne_none_of_followed (h : followed nodes before rest = some event) :
    newestOwned (before ++ rest) ≠ none := by
  intro hnone
  rw [newestOwned, List.find?_eq_none] at hnone
  simp only [List.mem_reverse, List.mem_append] at hnone
  rw [followed, Option.or_eq_some_iff] at h
  rcases h with hrest | ⟨-, hbefore⟩
  · exact hnone event (Or.inr (List.mem_reverse.mp (List.mem_of_find?_eq_some hrest)))
      (List.find?_some hrest)
  · have hboth := List.find?_some hbefore
    rw [Bool.and_eq_true] at hboth
    exact hnone event (Or.inl (List.mem_reverse.mp (List.mem_of_find?_eq_some hbefore))) hboth.1

/-- Following the log and restoring from it come to the same exactly when a cited snapshot leaves
no other one on the surface. -/
theorem resumed_iff (hdeclared : DeclaredProjections projections) {before rest : List SessionEvent}
    {start acc : SurfaceFoldState × List SurfaceFoldReplacement}
    (hbefore : foldSurfaceState before projections = .ok start)
    (hlog : foldSurfaceState (before ++ rest) projections = .ok acc) :
    Resumed start.1.nodes before rest acc.1.nodes ↔
      ∀ event, followed start.1.nodes before rest = some event → Cited rest event →
        ∀ other ∈ before ++ rest, isOwned other = true → other.seq ∉ acc.1.nodes := by
  have hfollowing := following hdeclared hbefore hlog
  have hrestore := restore_eq acc.1.nodes (before ++ rest)
  constructor
  · intro h event hevent hcited
    rw [← newestOnSurface_eq_none]
    have hdropped := hfollowing.dropped event hevent hcited
    cases hnewest : newestOnSurface acc.1.nodes (before ++ rest) with
    | none => rfl
    | some found =>
      have hlive := h.newest found hnewest
      rw [hdropped] at hlive
      cases hlive
  · intro h
    have hagree : live start.1.nodes before rest = restore acc.1.nodes (before ++ rest) := by
      rw [hrestore]
      cases hevent : followed start.1.nodes before rest with
      | none =>
        obtain ⟨hnone, hlive⟩ := hfollowing.absent hevent
        rw [hnone, hlive]
      | some event =>
        by_cases hcited : Cited rest event
        · have hnone := newestOnSurface_eq_none.mpr (h event hevent hcited)
          rw [hnone, hfollowing.dropped event hevent hcited,
            if_neg (newestOwned_ne_none_of_followed hevent)]
        · obtain ⟨hlive, hnewest⟩ := hfollowing.retained event hevent hcited
          rw [hnewest, hlive]
    refine ⟨hagree, ?_, ?_, ?_⟩
    · intro event hnewest
      rw [hagree, hrestore, hnewest]
    · intro hnone
      rw [hagree, hrestore, hnone]
      simp only
      split <;> rfl
    · intro id text sections
      rw [hagree]

/-! ## A snapshot dropped before an earlier one -/

def contextEvent (seq : ℕ) (text : String) : SessionEvent where
  type := .userMessage
  seq := seq
  time := 0
  data := .obj [("content", .arr [.obj [("type", .str "text"), ("text", .str text)]]),
    ("source", .obj [("kind", .str SOURCE)]), ("role", .str "user"), ("id", .str text)]
  surfaceOp := some (.str "append")

/-- Two snapshots, and a checkpoint in place of the second one. -/
def shadowedLog : List SessionEvent :=
  [contextEvent 0 "branch main", contextEvent 1 "branch topic",
    { type := .userMessage
      seq := 2
      time := 0
      data := .obj [("content", .arr []), ("source", .obj [("kind", .str "compact")]),
        ("role", .str "user"), ("id", .str "checkpoint")]
      surfaceOp := some (.obj [("op", .str "replace"), ("startSeq", .nat 1), ("endSeq", .nat 1)])
      sourceEventSeqs := some (.arr [.nat 1]) }]

theorem shadowedLog_accepted :
    (foldSurfaceState shadowedLog []).map (fun acc => acc.1.nodes) = .ok [0, 2] := by
  decide +kernel

/-- The checkpoint drops the second snapshot of a followed log, and the restored one is the
first. -/
theorem shadowed_snapshot_drifts : ¬∀ acc, foldSurfaceState shadowedLog [] = .ok acc →
    Resumed [] [] shadowedLog acc.1.nodes := by
  intro h
  have haccepted := shadowedLog_accepted
  cases hlog : foldSurfaceState shadowedLog [] with
  | error message =>
    rw [hlog] at haccepted
    cases haccepted
  | ok acc =>
    rw [hlog] at haccepted
    have hagree := (h acc hlog).agree
    have hnodes : acc.1.nodes = [0, 2] := Except.ok.inj haccepted
    rw [hnodes] at hagree
    revert hagree
    decide +kernel

/-- The resumption of this log. -/
theorem resumed_iff_shadowed : ∃ acc, foldSurfaceState shadowedLog [] = .ok acc ∧
    (Resumed [] [] shadowedLog acc.1.nodes ↔
      ∀ event, followed [] [] shadowedLog = some event → Cited shadowedLog event →
        ∀ other ∈ shadowedLog, isOwned other = true → other.seq ∉ acc.1.nodes) := by
  have haccepted := shadowedLog_accepted
  cases hlog : foldSurfaceState shadowedLog [] with
  | error message =>
    rw [hlog] at haccepted
    cases haccepted
  | ok acc =>
    refine ⟨acc, rfl, ?_⟩
    have hdeclared : DeclaredProjections [] := fun p hp => by cases hp
    have hbefore : foldSurfaceState [] [] = .ok (createFoldState, []) := rfl
    exact resumed_iff hdeclared hbefore hlog

end RuntimeContext

end TianmaCoder
