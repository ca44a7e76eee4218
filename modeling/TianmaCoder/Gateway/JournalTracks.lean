import Mathlib.Data.Int.SuccPred
import TianmaCoder.Gateway.JournalWindow

/-!
# The window is a slice of the journal

What a consumer builds from the published changes is at every moment a contiguous part of the
journal without duplicates, between the two cursors of the stream. It never falls behind an
entry that was processed, and each notification of a generation is published once and in order.

A consecutive window made of entries of the journal is contiguous in it
(`Consecutive.infix_of_subset`). Beside that the invariant says what the consumer still holds
where it waits: a repair holds every entry and notification taken since it began.

## Main definitions

* `JournalStream.Tracks` — what holds of the stream at every moment.
* `JournalStream.Inv` — the invariant of a step.

## Main results

* `JournalStream.window_tracks_journal`.
-/

namespace TianmaCoder

open Checked Effect Transition

namespace JournalStream

variable {Page Entry Cursor Request Notification : Type}

section Take

variable {s : State Page Entry Cursor Request Notification}

theorem take_opened (generation : ℕ) (cursor : Cursor) (page : Page) :
    take s (.item ⟨generation, .opened cursor page⟩) = s := rfl

variable (next : Next Page Entry Cursor Notification)

@[simp] theorem take_journal : (take s next).journal = s.journal := by
  unfold take
  split <;> rfl

@[simp] theorem take_stream : (take s next).stream = s.stream := by
  unfold take
  split <;> rfl

@[simp] theorem take_prepends : (take s next).prepends = s.prepends := by
  unfold take
  split <;> rfl

theorem take_arrived (generation : ℕ) (next : Next Page Entry Cursor Notification) :
    arrivedIn generation s.arrived <+: arrivedIn generation (take s next).arrived := by
  unfold take
  split
  · exact List.prefix_refl _
  · rw [arrivedIn_append]
    exact List.prefix_append _ _
  · exact List.prefix_refl _

end Take

variable [LinearOrder Cursor] (o : Options Page Entry Cursor Request)

/-- What holds of the stream at every moment: the window is a slice of the journal between the
cursors, it covers what was processed, and the notifications of a generation are published once
and in the order they arrived in. -/
structure Tracks (s : State Page Entry Cursor Request Notification) : Prop where
  slice : window s.stream.published <:+: s.journal
  nodup : (window s.stream.published).Nodup
  tail : ∀ cursor ∈ s.stream.lastCursor, cursor = tailCursor o (window s.stream.published)
  head : s.stream.firstCursor = (window s.stream.published).head?.map o.first
  unopened : s.stream.lastCursor = none → s.stream.published = []
  covers : s.consumer = .idle → ∀ entry ∈ s.delivered,
    ∃ cursor ∈ s.stream.lastCursor, o.last entry ≤ cursor
  inOrder : ∀ generation,
    notificationsIn generation s.stream.published <+: arrivedIn generation s.arrived
  settled : s.consumer = .idle →
    notificationsIn s.stream.generation s.stream.published
      = arrivedIn s.stream.generation s.arrived
  pending : ∀ repair, s.consumer = .reading repair →
    notificationsIn s.stream.generation s.stream.published ++ repair.notifications
      = arrivedIn s.stream.generation s.arrived

variable (floor : Option Cursor)

/-- What holds wherever the consumer waits. The last cursor has passed `floor`. -/
structure Base (s : State Page Entry Cursor Request Notification) : Prop where
  journal : Consecutive o.first o.last s.journal
  above : ∀ entry ∈ s.journal, o.emptyCursor < o.first entry
  windowed : Windowed o s.journal s.stream
  opened : s.stream.opened = true → s.stream.lastCursor ≠ none
  calls : ∀ call ∈ s.prepends, ∃ last ∈ s.stream.lastCursor, call.2 ≤ last
  past : ∀ cursor ∈ floor, ∃ last ∈ s.stream.lastCursor, cursor ≤ last
  inOrder : ∀ generation,
    notificationsIn generation s.stream.published <+: arrivedIn generation s.arrived

/-- The stream was opened, and no notification is of a later generation. -/
structure Live (s : State Page Entry Cursor Request Notification) : Prop where
  opened : s.stream.lastCursor ≠ none
  arrived : ∀ note ∈ s.arrived, note.1 ≤ s.stream.generation

/-- What the consumer holds where it waits. -/
def AtPoint (s : State Page Entry Cursor Request Notification) :
    Point Entry Cursor Request Notification → Prop
  | .unopened | .opening =>
    s.stream.lastCursor = none ∧ s.delivered = [] ∧ s.arrived = []
  | .idle =>
    Live s ∧
      (∀ entry ∈ s.delivered, ∃ last ∈ s.stream.lastCursor, o.last entry ≤ last) ∧
      notificationsIn s.stream.generation s.stream.published
        = arrivedIn s.stream.generation s.arrived
  | .reading repair =>
    Live s ∧ repair.generation = s.stream.generation ∧
      (∀ last ∈ s.stream.lastCursor, last ≤ repair.requiredCursor) ∧
      (∀ entry ∈ repair.queued, entry ∈ s.journal) ∧
      (∀ entry ∈ s.delivered, entry ∈ repair.queued ∨
        ∃ last ∈ s.stream.lastCursor, o.last entry ≤ last) ∧
      notificationsIn s.stream.generation s.stream.published ++ repair.notifications
        = arrivedIn s.stream.generation s.arrived
  | .replacing generation => Live s ∧ generation = s.stream.generation
  | .closed _ => True

/-- The invariant of a step. -/
structure Inv (s : State Page Entry Cursor Request Notification) : Prop where
  base : Base o floor s
  unstarted : s.stream.started = false → s.consumer = .unopened
  point : AtPoint o s s.consumer

variable {o} {floor} {s t : State Page Entry Cursor Request Notification}

theorem Inv.tracks (h : Inv o floor s) : Tracks o s := by
  have hpoint := h.point
  constructor
  · exact h.base.journal.infix_of_subset h.base.windowed.consecutive h.base.windowed.subset
  · exact h.base.windowed.consecutive.nodup
  · exact h.base.windowed.tail
  · exact h.base.windowed.head
  · exact h.base.windowed.unopened
  · intro hidle
    rw [hidle] at hpoint
    exact hpoint.2.1
  · exact h.base.inOrder
  · intro hidle
    rw [hidle] at hpoint
    exact hpoint.2.2
  · intro repair hreading
    rw [hreading] at hpoint
    exact hpoint.2.2.2.2.2

theorem Inv.init : Inv o none (init : State Page Entry Cursor Request Notification) where
  base := by
    constructor
    · exact Consecutive.nil
    · exact fun _ h => absurd h List.not_mem_nil
    · exact ⟨Consecutive.nil, fun _ h => h, (fun _ h => nomatch h), rfl, rfl, fun _ => rfl⟩
    · exact fun h => absurd h Bool.false_ne_true
    · exact fun _ h => absurd h List.not_mem_nil
    · exact fun _ h => nomatch h
    · exact fun _ => List.prefix_refl []
  unstarted _ := rfl
  point := ⟨rfl, rfl, rfl⟩

/-- What the consumer holds is about the cursor, the notifications and the entries taken. -/
theorem AtPoint.congr {point : Point Entry Cursor Request Notification} (h : AtPoint o s point)
    (hlast : t.stream.lastCursor = s.stream.lastCursor)
    (hgeneration : t.stream.generation = s.stream.generation)
    (hnotes : ∀ g, notificationsIn g t.stream.published = notificationsIn g s.stream.published)
    (hdelivered : t.delivered = s.delivered) (harrived : t.arrived = s.arrived)
    (hjournal : ∀ entry ∈ s.journal, entry ∈ t.journal) : AtPoint o t point := by
  have hlive : Live s → Live t :=
    fun hlive => ⟨hlast ▸ hlive.opened, by rw [harrived, hgeneration]; exact hlive.arrived⟩
  cases point with
  | unopened =>
    rw [AtPoint, hlast, hdelivered, harrived]
    exact h
  | opening =>
    rw [AtPoint, hlast, hdelivered, harrived]
    exact h
  | idle =>
    rw [AtPoint, hlast, hdelivered, harrived, hgeneration, hnotes]
    exact ⟨hlive h.1, h.2⟩
  | reading repair =>
    rw [AtPoint, hlast, hdelivered, harrived, hgeneration, hnotes]
    obtain ⟨hl, hsame, hrequired, hqueued, hrest⟩ := h
    exact ⟨hlive hl, hsame, hrequired, fun e he => hjournal e (hqueued e he), hrest⟩
  | replacing generation =>
    rw [AtPoint, hgeneration]
    exact ⟨hlive h.1, h.2⟩
  | closed error => trivial

/-! ### The consumer -/

variable {stream : Stream Page Entry Cursor Request Notification}

/-- A segment changes the stream and where the consumer waits. -/
theorem Base.advance {generation : ℕ} (h : Base o floor s)
    (hadvances : Advances o s.journal generation s.stream stream)
    (hnotes : ∀ g, notificationsIn g stream.published <+: arrivedIn g s.arrived)
    (point : Point Entry Cursor Request Notification) :
    Base o floor { s with stream := stream, consumer := point } where
  journal := h.journal
  above := h.above
  windowed := hadvances.windowed
  opened hopened := by
    rw [hadvances.opened] at hopened
    obtain ⟨last, hlast⟩ := Option.ne_none_iff_exists'.mp (h.opened hopened)
    obtain ⟨next, hnext, _⟩ := hadvances.grows last hlast
    rw [Option.mem_def.mp hnext]
    exact Option.some_ne_none next
  calls call hcall := by
    obtain ⟨last, hlast, hle⟩ := h.calls call hcall
    obtain ⟨next, hnext, hgrows⟩ := hadvances.grows last hlast
    exact ⟨next, hnext, hle.trans hgrows⟩
  past cursor hcursor := by
    obtain ⟨last, hlast, hle⟩ := h.past cursor hcursor
    obtain ⟨next, hnext, hgrows⟩ := hadvances.grows last hlast
    exact ⟨next, hnext, hle.trans hgrows⟩
  inOrder := hnotes

theorem Base.fails (h : Base o floor s) (hfails : Fails o s.journal s.stream stream)
    (point : Point Entry Cursor Request Notification) :
    Base o floor { s with stream := stream, consumer := point } := by
  obtain ⟨⟨generation, hadvances⟩, hnotes⟩ := hfails
  exact h.advance hadvances (fun g => hnotes g ▸ h.inOrder g) point

theorem Inv.failed (h : Base o floor s) (hstarted : s.stream.started = true)
    (hfails : Fails o s.journal s.stream stream) (error : Option Failure) :
    Inv o floor { s with stream := stream, consumer := .closed error } where
  base := h.fails hfails (.closed error)
  unstarted hnot := by
    obtain ⟨⟨generation, hadvances⟩, _⟩ := hfails
    rw [hadvances.started, hstarted] at hnot
    cases hnot
  point := trivial

variable (o) (floor) in
/-- A segment of the consumer ends where the invariant holds, also where it throws. -/
def Leads (s : State Page Entry Cursor Request Notification)
    (segment : M Page Entry Cursor Request Notification
      (Point Entry Cursor Request Notification)) : Prop :=
  Leaves (fun point stream => Inv o floor { s with stream := stream, consumer := point })
    (fun error stream => Inv o floor { s with stream := stream, consumer := .closed (some error) })
    (segment s.stream)

theorem Leads.settle {segment : M Page Entry Cursor Request Notification
    (Point Entry Cursor Request Notification)} (h : Leads o floor s segment) :
    Inv o floor (settle s segment) := by
  unfold Leads at h
  unfold JournalStream.settle
  cases hrun : segment s.stream with
  | ok point stream =>
    rw [hrun] at h
    exact h
  | error error stream =>
    rw [hrun, leaves_error] at h
    have hw := h.base.windowed
    refine ⟨⟨h.base.journal, h.base.above, ?_, h.base.opened, h.base.calls, h.base.past,
      h.base.inOrder⟩,
      h.unstarted, trivial⟩
    exact ⟨hw.consecutive, hw.subset, hw.tail, hw.head, hw.resume, hw.unopened⟩

theorem Base.taken (h : Base o floor s) (next : Next Page Entry Cursor Notification) :
    Base o floor (take s next) where
  journal := by rw [take_journal]; exact h.journal
  above := by rw [take_journal]; exact h.above
  windowed := by rw [take_journal, take_stream]; exact h.windowed
  opened := by rw [take_stream]; exact h.opened
  calls := by rw [take_prepends, take_stream]; exact h.calls
  past := by rw [take_stream]; exact h.past
  inOrder g := by rw [take_stream]; exact (h.inOrder g).trans (take_arrived g next)

/-- Nothing of a later generation has arrived or was published. -/
theorem Base.noneLater (h : Base o floor s) {generation : ℕ}
    (hnew : arrivedIn generation s.arrived = []) :
    notificationsIn generation s.stream.published = arrivedIn generation s.arrived := by
  have hpre := h.inOrder generation
  rw [hnew, List.prefix_nil] at hpre
  rw [hpre, hnew]

variable {aborted streamAborted : Bool}

/-- An opening is at or past everything delivered before it, so the consumer is idle with
nothing left to cover. -/
theorem replaceGeneration_idle {item : Item Page Entry Cursor Notification} {resumed : Bool}
    (h : Base o floor s) (hstarted : s.stream.started = true)
    (hresumed : resumed = true ∨ s.stream.lastCursor = none)
    (hadmits : Admits o s (.next (.item item) aborted streamAborted))
    (harrived : ∀ note ∈ s.arrived, note.1 ≤ item.generation)
    (hnew : arrivedIn item.generation s.arrived = []) :
    Leaves
      (fun _ stream => Inv o floor { take s (.item item) with stream := stream, consumer := .idle })
      (fun error stream =>
        Inv o floor { take s (.item item) with stream := stream, consumer := .closed (some error) })
      (replaceGeneration o item resumed s.stream) := by
  have hpage : ∀ cursor page, item.value = .opened cursor page →
      ∀ entry ∈ o.entries page, entry ∈ s.journal := by
    intro cursor page hvalue entry hentry
    have hsound := hadmits.2
    rw [hvalue] at hsound
    exact hsound.1.subset hentry
  refine leaves_mono (replaceGeneration_leaves h.windowed hresumed hpage) ?_ ?_
  · intro _ stream ⟨hadvances, ⟨cursor, page, hvalue, hlast⟩, hnotes⟩
    have htake : take s (.item item) = s := by
      cases item
      cases hvalue
      rfl
    rw [htake]
    have hfresh := hadmits.2
    rw [hvalue] at hfresh
    refine ⟨h.advance hadvances (fun g => hnotes g ▸ h.inOrder g) .idle, ?_, ?_, ?_, ?_⟩
    · intro hnot
      rw [hadvances.started, hstarted] at hnot
      cases hnot
    · constructor
      · rw [hlast]
        exact Option.some_ne_none cursor
      · intro note hnote
        rw [hadvances.generation]
        exact harrived note hnote
    · intro entry hentry
      exact ⟨cursor, hlast, hfresh.2 entry hentry⟩
    · change notificationsIn stream.generation stream.published
        = arrivedIn stream.generation s.arrived
      rw [hadvances.generation, hnotes]
      exact h.noneLater hnew
  · intro error stream hfails
    refine Inv.failed (h.taken (.item item)) ?_ ?_ (some error)
    · rw [take_stream]
      exact hstarted
    · rw [take_journal, take_stream]
      exact hfails

theorem superseded_idle {item : Item Page Entry Cursor Notification} (h : Base o floor s)
    (hlive : Live s) (hstarted : s.stream.started = true)
    (hadmits : Admits o s (.next (.item item) aborted streamAborted))
    (hnew : item.generation ≠ s.stream.generation) :
    Leads o floor (take s (.item item)) (do replaceGeneration o item true; pure .idle) := by
  have hlt : s.stream.generation < item.generation :=
    Nat.lt_of_le_of_ne hadmits.1 (Ne.symm hnew)
  unfold Leads
  rw [take_stream]
  refine leaves_bind (replaceGeneration_idle h hstarted (.inl rfl) hadmits ?_ ?_) ?_
  · intro note hnote
    exact (hlive.arrived note hnote).trans hlt.le
  · exact arrivedIn_eq_nil hlive.arrived hlt
  · intro _ stream hinv
    exact hinv

/-- A segment that throws at once leaves the stream as it is. -/
theorem Base.throws (h : Base o floor s) (hstarted : s.stream.started = true)
    (next : Next Page Entry Cursor Notification) (error : Option Failure) :
    Inv o floor { take s next with stream := (take s next).stream, consumer := .closed error } :=
  Inv.failed (h.taken next) (by rw [take_stream]; exact hstarted)
    (Fails.refl (h.taken next).windowed) error

variable {next : Next Page Entry Cursor Notification}

theorem openFirst_leads (h : Base o floor s)
    (hpoint : AtPoint o s (.opening : Point Entry Cursor Request Notification))
    (hstarted : s.stream.started = true) (hadmits : Admits o s (.next next aborted streamAborted)) :
    Leads o floor (take s next) (openFirst o next) := by
  have ⟨hnone, _, harrived⟩ := hpoint
  cases next with
  | failed error => exact h.throws hstarted _ _
  | done => exact h.throws hstarted _ _
  | item item =>
    unfold Leads openFirst
    rw [take_stream]
    refine leaves_bind (replaceGeneration_idle h hstarted (.inr hnone) hadmits ?_ ?_) ?_
    · rw [harrived]
      exact fun _ h => absurd h List.not_mem_nil
    · rw [harrived]
      rfl
    · intro _ stream hinv
      -- the flag of `prepend` is set behind the opening
      have hb := hinv.base
      have hw := hb.windowed
      refine ⟨⟨hb.journal, hb.above, ?_, fun _ => hinv.point.1.opened, hb.calls, hb.past, hb.inOrder⟩,
        hinv.unstarted, ⟨hinv.point.1.opened, hinv.point.1.arrived⟩, hinv.point.2⟩
      exact ⟨hw.consecutive, hw.subset, hw.tail, hw.head, hw.resume, hw.unopened⟩

theorem consume_leads (h : Base o floor s)
    (hpoint : AtPoint o s (.idle : Point Entry Cursor Request Notification))
    (hstarted : s.stream.started = true) (hadmits : Admits o s (.next next aborted streamAborted)) :
    Leads o floor (take s next) (consume o next) := by
  have ⟨hlive, hcovers, hsettled⟩ := hpoint
  cases next with
  | failed error => exact h.throws hstarted _ _
  | done => exact h.throws hstarted _ _
  | item item =>
    unfold Leads consume
    rw [leaves_get_bind]
    by_cases hnew : item.generation ≠ (take s (.item item)).stream.generation
    · rw [if_pos hnew]
      rw [take_stream] at hnew
      exact superseded_idle h hlive hstarted hadmits hnew
    · rw [if_neg hnew]
      rw [take_stream, not_not] at hnew
      obtain ⟨generation, value⟩ := item
      change generation = s.stream.generation at hnew
      cases value with
      | opened cursor page => exact h.throws hstarted _ _
      | notification notification =>
        have hadvances := publishNotification_advances h.windowed hlive.opened notification
        have hsame : ∀ g, notificationsIn g s.stream.published = arrivedIn g s.arrived →
            notificationsIn g (s.stream.published
                ++ [(s.stream.generation, .notification notification)])
              = arrivedIn g (s.arrived ++ [(generation, notification)]) := by
          intro g hg
          rw [notificationsIn_append, arrivedIn_append, hg, notificationsIn_singleton,
            arrivedIn_singleton, hnew]
        have hinOrder : ∀ g, notificationsIn g (s.stream.published
            ++ [(s.stream.generation, .notification notification)])
            <+: arrivedIn g (s.arrived ++ [(generation, notification)]) := by
          intro g
          by_cases hg : s.stream.generation = g
          · subst hg
            exact hsame _ hsettled ▸ List.prefix_refl _
          · rw [notificationsIn_append, notificationsIn_singleton, if_neg hg, List.append_nil,
              arrivedIn_append]
            exact (h.inOrder g).trans (List.prefix_append _ _)
        have hbase : Base o floor (take s (.item ⟨generation, .notification notification⟩)) :=
          h.taken _
        refine ⟨hbase.advance hadvances hinOrder .idle, ?_, ⟨hlive.opened, ?_⟩, hcovers, ?_⟩
        · intro hnot
          cases hstarted.symm.trans hnot
        · intro note hnote
          cases List.mem_append.mp hnote with
          | inl hold => exact hlive.arrived note hold
          | inr hlast =>
            rw [List.mem_singleton.mp hlast]
            exact hnew.le
        · exact hsame _ hsettled
      | entry entry =>
        have hbase : Base o floor (take s (.item ⟨generation, .entry entry⟩)) := h.taken _
        refine leaves_bind (leaves_mono (acceptEntry_leaves h.windowed hadmits.2
          hlive.opened) (fun _ _ h => h) ?_) ?_
        · intro error stream hfail
          exact Inv.failed hbase hstarted hfail (some error)
        · intro repair stream ⟨hadvances, hnotes, hrepair⟩
          have hinOrder : ∀ g, notificationsIn g stream.published <+: arrivedIn g s.arrived :=
            fun g => hnotes g ▸ h.inOrder g
          have hstill : stream.lastCursor ≠ none := by
            obtain ⟨last, hlast⟩ := Option.ne_none_iff_exists'.mp hlive.opened
            obtain ⟨next, hnext, _⟩ := hadvances.grows last hlast
            rw [Option.mem_def.mp hnext]
            exact Option.some_ne_none next
          have hcovered : ∀ other ∈ s.delivered, ∃ last ∈ stream.lastCursor,
              o.last other ≤ last := by
            intro other hother
            obtain ⟨last, hlast, hle⟩ := hcovers other hother
            obtain ⟨next, hnext, hgrows⟩ := hadvances.grows last hlast
            exact ⟨next, hnext, hle.trans hgrows⟩
          cases repair with
          | none =>
            refine ⟨hbase.advance hadvances hinOrder .idle, ?_, ⟨hstill, ?_⟩, ?_, ?_⟩
            · intro hnot
              cases (hadvances.started.trans hstarted).symm.trans hnot
            · intro note hnote
              exact hadvances.generation ▸ hlive.arrived note hnote
            · intro other hother
              cases List.mem_append.mp hother with
              | inl hold => exact hcovered other hold
              | inr hlast => exact List.mem_singleton.mp hlast ▸ hrepair
            · change notificationsIn stream.generation stream.published
                = arrivedIn stream.generation s.arrived
              rw [hadvances.generation, hnotes]
              exact hsettled
          | some repair =>
            obtain ⟨hsame, hgeneration, hqueued, hnone, hrequired⟩ := hrepair
            subst hsame
            refine ⟨hbase.advance hadvances hinOrder (.reading repair), ?_,
              ⟨hstill, hlive.arrived⟩, hgeneration.trans hnew, hrequired, ?_, ?_, ?_⟩
            · intro hnot
              cases hstarted.symm.trans hnot
            · intro other hother
              rw [hqueued] at hother
              exact List.mem_singleton.mp hother ▸ hadmits.2
            · intro other hother
              cases List.mem_append.mp hother with
              | inl hold => exact .inr (hcovered other hold)
              | inr hlast => exact .inl (hqueued ▸ hlast)
            · rw [hnone, List.append_nil]
              exact hsettled

theorem readNext_leads {repair : Repair Entry Cursor Request Notification} (h : Base o floor s)
    (hpoint : AtPoint o s (.reading repair)) (hstarted : s.stream.started = true)
    (hadmits : Admits o s (.next next aborted streamAborted)) :
    Leads o floor (take s next) (readNext o repair next aborted) := by
  have ⟨hlive, hgeneration, hrequired, hqueued, hcovers, hsettled⟩ := hpoint
  cases next with
  | failed error => exact h.throws hstarted _ _
  | done =>
    cases aborted with
    | true => exact h.throws hstarted _ _
    | false => exact h.throws hstarted _ _
  | item item =>
    unfold Leads readNext
    by_cases hnew : item.generation ≠ repair.generation
    · simp only [hnew, ne_eq, not_false_eq_true, ↓reduceIte]
      exact superseded_idle h hlive hstarted hadmits (hgeneration ▸ hnew)
    · simp only [hnew, ↓reduceIte]
      rw [not_not] at hnew
      obtain ⟨generation, value⟩ := item
      change generation = repair.generation at hnew
      cases value with
      | opened cursor page => exact h.throws hstarted _ _
      | notification notification =>
        have hbase : Base o floor (take s (.item ⟨generation, .notification notification⟩)) :=
          h.taken _
        refine ⟨⟨hbase.journal, hbase.above, hbase.windowed, hbase.opened, hbase.calls, hbase.past,
          hbase.inOrder⟩, ?_, ⟨hlive.opened, ?_⟩, hgeneration, hrequired, hqueued, hcovers, ?_⟩
        · intro hnot
          cases hstarted.symm.trans hnot
        · intro note hnote
          cases List.mem_append.mp hnote with
          | inl hold => exact hlive.arrived note hold
          | inr hlast =>
            rw [List.mem_singleton.mp hlast]
            exact (hnew.trans hgeneration).le
        · change _ = arrivedIn s.stream.generation (s.arrived ++ [(generation, notification)])
          rw [arrivedIn_append, ← hsettled, arrivedIn_singleton,
            if_pos (hnew.trans hgeneration), List.append_assoc]
          rfl
      | entry entry =>
        have hbase : Base o floor (take s (.item ⟨generation, .entry entry⟩)) := h.taken _
        refine ⟨⟨hbase.journal, hbase.above, hbase.windowed, hbase.opened, hbase.calls, hbase.past,
          hbase.inOrder⟩, ?_, ⟨hlive.opened, hlive.arrived⟩, hgeneration, hrequired, ?_, ?_,
          hsettled⟩
        · intro hnot
          cases hstarted.symm.trans hnot
        · intro other hother
          cases List.mem_append.mp hother with
          | inl hold => exact hqueued other hold
          | inr hlast => exact List.mem_singleton.mp hlast ▸ hadmits.2
        · intro other hother
          cases List.mem_append.mp hother with
          | inl hold => exact (hcovers other hold).imp_left (List.mem_append_left [entry])
          | inr hlast => exact .inl (List.mem_append_right repair.queued hlast)

theorem awaitNext_leads {generation : ℕ} (h : Base o floor s)
    (hpoint : AtPoint o s (.replacing generation : Point Entry Cursor Request Notification))
    (hstarted : s.stream.started = true) (hadmits : Admits o s (.next next aborted streamAborted)) :
    Leads o floor (take s next) (awaitNext o generation next streamAborted) := by
  have ⟨hlive, hgeneration⟩ := hpoint
  cases next with
  | failed error => exact h.throws hstarted _ _
  | done =>
    cases streamAborted with
    | true => exact h.throws hstarted _ _
    | false => exact h.throws hstarted _ _
  | item item =>
    unfold Leads awaitNext
    by_cases hnew : item.generation ≠ generation
    · simp only [hnew, ne_eq, not_false_eq_true, ↓reduceIte]
      exact superseded_idle h hlive hstarted hadmits (hgeneration ▸ hnew)
    · simp only [hnew, ↓reduceIte]
      rw [not_not] at hnew
      obtain ⟨itemGeneration, value⟩ := item
      change itemGeneration = generation at hnew
      have hbase : Base o floor (take s (.item ⟨itemGeneration, value⟩)) := h.taken _
      have hstays : (∀ note ∈ (take s (.item ⟨itemGeneration, value⟩)).arrived,
            note.1 ≤ s.stream.generation) →
          Inv o floor { take s (.item ⟨itemGeneration, value⟩) with
            stream := s.stream, consumer := .replacing generation } := by
        intro harrived
        rw [← take_stream (s := s) (.item ⟨itemGeneration, value⟩)]
        refine ⟨⟨hbase.journal, hbase.above, hbase.windowed, hbase.opened, hbase.calls, hbase.past,
          hbase.inOrder⟩, ?_, ⟨?_, ?_⟩, ?_⟩
        · intro hnot
          rw [take_stream] at hnot
          cases hstarted.symm.trans hnot
        · rw [take_stream]
          exact hlive.opened
        · rw [take_stream]
          exact harrived
        · rw [take_stream]
          exact hgeneration
      cases value with
      | opened cursor page => exact h.throws hstarted _ _
      | notification notification =>
        refine hstays ?_
        intro note hnote
        cases List.mem_append.mp hnote with
        | inl hold => exact hlive.arrived note hold
        | inr hlast =>
          rw [List.mem_singleton.mp hlast]
          exact (hnew.trans hgeneration).le
      | entry entry => exact hstays hlive.arrived

/-! ### Page reads and calls -/

theorem readPage_leads {repair : Repair Entry Cursor Request Notification}
    {page : Except Failure Page} (h : Base o floor s) (hpoint : AtPoint o s (.reading repair))
    (hstarted : s.stream.started = true) (hadmits : Admits o s (.page page aborted streamAborted)) :
    Leads o floor s (readPage o repair page aborted streamAborted) := by
  have ⟨hlive, hgeneration, hrequired, hqueued, hcovers, hsettled⟩ := hpoint
  have hfails : ∀ error, Inv o floor { s with stream := s.stream, consumer := .closed error } :=
    Inv.failed h hstarted (Fails.refl h.windowed)
  unfold Leads readPage
  cases page with
  | error error =>
    by_cases hown : aborted = false ∨ streamAborted = true
    · simp only [hown, ↓reduceIte]
      exact hfails _
    · simp only [hown, ↓reduceIte]
      refine ⟨⟨h.journal, h.above, h.windowed, h.opened, h.calls, h.past, h.inOrder⟩, ?_,
        ⟨hlive.opened, hlive.arrived⟩, hgeneration⟩
      intro hnot
      cases hstarted.symm.trans hnot
  | ok page =>
    cases aborted with
    | true => exact hfails _
    | false =>
      have hpage : ∀ entry ∈ o.entries page, entry ∈ s.journal :=
        fun entry hentry => hadmits.subset hentry
      simp only [Bool.false_eq_true, ↓reduceIte]
      refine leaves_bind (leaves_mono (afterPage_leaves h.windowed hpage hqueued hrequired)
        (fun _ _ h => h) ?_) ?_
      · intro error stream hfail
        exact Inv.failed h hstarted hfail (some error)
      · intro again stream ⟨hadvances, hagain⟩
        cases again with
        | none =>
          have ⟨hnotes, last, hlast, hreached⟩ := hagain
          have hall : notificationsIn s.stream.generation stream.published
              = arrivedIn s.stream.generation s.arrived := by
            rw [hnotes, if_pos rfl, hsettled]
          have hinOrder : ∀ g,
              notificationsIn g stream.published <+: arrivedIn g s.arrived := by
            intro g
            by_cases hg : g = s.stream.generation
            · rw [hg]
              exact hall ▸ List.prefix_refl _
            · rw [hnotes, if_neg hg, List.append_nil]
              exact h.inOrder g
          refine ⟨h.advance hadvances hinOrder .idle, ?_, ⟨?_, ?_⟩, ?_, ?_⟩
          · intro hnot
            cases (hadvances.started.trans hstarted).symm.trans hnot
          · change stream.lastCursor ≠ none
            rw [Option.mem_def.mp hlast]
            exact Option.some_ne_none last
          · intro note hnote
            exact hadvances.generation ▸ hlive.arrived note hnote
          · intro entry hentry
            cases hcovers entry hentry with
            | inl hin => exact ⟨last, hlast, hreached entry hin⟩
            | inr hbehind =>
              obtain ⟨old, hold, hle⟩ := hbehind
              obtain ⟨next, hnext, hgrows⟩ := hadvances.grows old hold
              exact ⟨next, hnext, hle.trans hgrows⟩
          · change notificationsIn stream.generation stream.published
              = arrivedIn stream.generation s.arrived
            rw [hadvances.generation]
            exact hall
        | some again =>
          obtain ⟨hsame, hsameGeneration, hsameQueued, hsameNotes, hsameRequired⟩ := hagain
          subst hsame
          refine ⟨h.advance hadvances h.inOrder (.reading again), ?_,
            ⟨hlive.opened, hlive.arrived⟩, hsameGeneration.trans hgeneration,
            hsameRequired ▸ hrequired, hsameQueued ▸ hqueued, hsameQueued ▸ hcovers, ?_⟩
          · intro hnot
            cases hstarted.symm.trans hnot
          · rw [hsameNotes]
            exact hsettled

theorem prepended_inv {index : ℕ} {page : Page} {request : Request × Cursor} (h : Inv o floor s)
    (hcall : s.prepends[index]? = some request)
    (hadmits : Admits o s (.prepended index (.ok page) aborted))
    (hrun : (∃ u, prependPage o page aborted s.stream = .ok u stream) ∨
      ∃ error, prependPage o page aborted s.stream = .error error stream) :
    Inv o floor { s with prepends := s.prepends.eraseIdx index, stream := stream } := by
  have hb := h.base
  have ⟨last, hlast, hle⟩ := hb.calls request (List.mem_of_getElem? hcall)
  have hopened : s.stream.lastCursor ≠ none := by
    rw [Option.mem_def.mp hlast]
    exact Option.some_ne_none last
  have hleaves := prependPage_leaves page aborted hb.windowed hopened
    (fun entry hentry => hadmits.1.subset hentry) hb.above
    fun entry hentry => ⟨last, hlast, (hadmits.2 request hcall entry hentry).trans hle⟩
  have ⟨hadvances, hsame, hnotes⟩ : Advances o s.journal s.stream.generation s.stream stream ∧
      stream.lastCursor = s.stream.lastCursor ∧
      ∀ g, notificationsIn g stream.published = notificationsIn g s.stream.published := by
    cases hrun with
    | inl hok =>
      obtain ⟨u, hok⟩ := hok
      rw [hok] at hleaves
      exact hleaves
    | inr herror =>
      obtain ⟨error, herror⟩ := herror
      rw [herror] at hleaves
      exact hleaves
  have hbase := hb.advance hadvances (fun g => hnotes g ▸ hb.inOrder g) s.consumer
  refine ⟨⟨hbase.journal, hbase.above, hbase.windowed, hbase.opened, ?_, hbase.past,
    hbase.inOrder⟩, ?_, ?_⟩
  · intro call hmem
    exact hbase.calls call (List.mem_of_mem_eraseIdx hmem)
  · intro hnot
    exact h.unstarted (hadvances.started ▸ hnot)
  · exact h.point.congr hsame hadvances.generation hnotes rfl rfl fun _ h => h

theorem append_inv {entry : Entry} (h : Inv o floor s) (hadmits : Admits o s (.append entry)) :
    Inv o floor { s with journal := s.journal ++ [entry] } := by
  have hb := h.base
  have hw := hb.windowed
  have hgrown : ∀ other, other ∈ s.journal → other ∈ s.journal ++ [entry] :=
    fun other hother => List.mem_append_left [entry] hother
  have hbelow : o.emptyCursor ≤ tailCursor o s.journal := by
    cases hlast : s.journal.getLast? with
    | none => simp [tailCursor, hlast]
    | some tail =>
      have hmem : tail ∈ s.journal := List.mem_of_getLast? hlast
      simp only [tailCursor, hlast]
      exact (hb.above tail hmem).le.trans (hb.journal.ordered tail hmem)
  refine ⟨⟨?_, ?_, ?_, hb.opened, hb.calls, hb.past, hb.inOrder⟩, h.unstarted, ?_⟩
  · refine hb.journal.append (Consecutive.singleton hadmits.2) ?_
    intro x hx y hy
    cases hy
    have htail : tailCursor o s.journal = o.last x := by
      simp only [tailCursor, Option.mem_def.mp hx]
    exact htail ▸ hadmits.1
  · intro other hother
    cases List.mem_append.mp hother with
    | inl hold => exact hb.above other hold
    | inr hnew =>
      rw [List.mem_singleton.mp hnew]
      exact hbelow.trans_lt hadmits.1.lt
  · exact ⟨hw.consecutive, fun other hother => hgrown other (hw.subset other hother), hw.tail,
      hw.head, hw.resume, hw.unopened⟩
  · exact h.point.congr rfl rfl (fun _ => rfl) rfl rfl hgrown

/-- A change of the flags alone. -/
theorem Windowed.flags {journal : List Entry}
    {stream' : Stream Page Entry Cursor Request Notification} (h : Windowed o journal stream)
    (hpublished : stream'.published = stream.published)
    (hfirst : stream'.firstCursor = stream.firstCursor)
    (hlast : stream'.lastCursor = stream.lastCursor)
    (hresume : stream'.resumeCursor = stream.resumeCursor) : Windowed o journal stream' where
  consecutive := hpublished ▸ h.consecutive
  subset := hpublished ▸ h.subset
  tail := by rw [hpublished, hlast]; exact h.tail
  head := by rw [hpublished, hfirst]; exact h.head
  resume := by rw [hresume, hlast]; exact h.resume
  unopened := by rw [hpublished, hlast]; exact h.unopened

theorem step_inv {action : Action Page Entry Cursor Request Notification} (h : Inv o floor s)
    (hadmits : Admits o s action) (hstep : step o s action = some t) : Inv o floor t := by
  have hb := h.base
  have hpoint := h.point
  cases action with
  | append entry =>
    cases hstep
    exact append_inv h hadmits
  | «open» request =>
    rw [step] at hstep
    by_cases hstarted : s.stream.started = true
    · rw [if_pos hstarted] at hstep
      cases hstep
      exact h
    · rw [if_neg hstarted] at hstep
      cases hstep
      have hunopened := h.unstarted (Bool.eq_false_iff.mpr hstarted)
      rw [hunopened] at hpoint
      refine ⟨⟨hb.journal, hb.above, hb.windowed.flags rfl rfl rfl rfl, hb.opened, hb.calls,
        hb.past, hb.inOrder⟩, ?_, hpoint⟩
      intro hnot
      cases hnot
  | next result aborted streamAborted =>
    rw [step] at hstep
    have hstarted : s.consumer ≠ .unopened → s.stream.started = true := by
      intro hne
      by_contra hnot
      exact hne (h.unstarted (Bool.eq_false_iff.mpr hnot))
    cases hconsumer : s.consumer with
    | unopened =>
      rw [hconsumer] at hstep
      cases hstep
    | closed error =>
      rw [hconsumer] at hstep
      cases hstep
    | opening =>
      rw [hconsumer] at hstep hpoint hstarted
      cases hstep
      exact (openFirst_leads hb hpoint (hstarted (by simp)) hadmits).settle
    | idle =>
      rw [hconsumer] at hstep hpoint hstarted
      cases hstep
      exact (consume_leads hb hpoint (hstarted (by simp)) hadmits).settle
    | reading repair =>
      rw [hconsumer] at hstep hpoint hstarted
      cases hstep
      exact (readNext_leads hb hpoint (hstarted (by simp)) hadmits).settle
    | replacing generation =>
      rw [hconsumer] at hstep hpoint hstarted
      cases hstep
      exact (awaitNext_leads hb hpoint (hstarted (by simp)) hadmits).settle
  | page result aborted streamAborted =>
    rw [step] at hstep
    cases hconsumer : s.consumer with
    | reading repair =>
      rw [hconsumer] at hstep hpoint
      cases hstep
      have hstarted : s.stream.started = true := by
        by_contra hnot
        have hunopened := h.unstarted (Bool.eq_false_iff.mpr hnot)
        rw [hconsumer] at hunopened
        cases hunopened
      exact (readPage_leads hb hpoint hstarted hadmits).settle
    | _ =>
      rw [hconsumer] at hstep
      cases hstep
  | prepend request =>
    rw [step] at hstep
    by_cases hclosed : s.stream.opened = false ∨ s.stream.disposed = true
    · rw [if_pos hclosed] at hstep
      cases hstep
      exact h
    · rw [if_neg hclosed] at hstep
      cases hstep
      have hopened := hb.opened (by
        rw [← Bool.not_eq_false]
        exact fun hnot => hclosed (.inl hnot))
      obtain ⟨last, hlast⟩ := Option.ne_none_iff_exists'.mp hopened
      refine ⟨⟨hb.journal, hb.above, hb.windowed, hb.opened, ?_, hb.past, hb.inOrder⟩,
        h.unstarted, ?_⟩
      · intro call hcall
        cases List.mem_append.mp hcall with
        | inl hold => exact hb.calls call hold
        | inr hnew =>
          rw [List.mem_singleton.mp hnew]
          refine ⟨last, hlast, ?_⟩
          simp only [currentCursor, hb.windowed.resume, hlast, Option.getD_some, le_refl]
      · exact hpoint.congr rfl rfl (fun _ => rfl) rfl rfl fun _ h => h
  | prepended index result aborted =>
    rw [step] at hstep
    cases hcall : s.prepends[index]? with
    | none =>
      rw [hcall] at hstep
      cases hstep
    | some request =>
      rw [hcall] at hstep
      cases result with
      | error error =>
        cases hstep
        refine ⟨⟨hb.journal, hb.above, hb.windowed, hb.opened, ?_, hb.past, hb.inOrder⟩,
          h.unstarted, hpoint.congr rfl rfl (fun _ => rfl) rfl rfl fun _ h => h⟩
        exact fun call hmem => hb.calls call (List.mem_of_mem_eraseIdx hmem)
      | ok page =>
        cases hrun : prependPage o page aborted s.stream with
        | ok u stream =>
          simp only [hrun, Option.some.injEq] at hstep
          exact hstep ▸ prepended_inv h hcall hadmits (.inl ⟨u, hrun⟩)
        | error error stream =>
          simp only [hrun, Option.some.injEq] at hstep
          exact hstep ▸ prepended_inv h hcall hadmits (.inr ⟨error, hrun⟩)
  | dispose =>
    cases hstep
    exact ⟨⟨hb.journal, hb.above, hb.windowed.flags rfl rfl rfl rfl, hb.opened, hb.calls,
      hb.past, hb.inOrder⟩, h.unstarted,
      hpoint.congr rfl rfl (fun _ => rfl) rfl rfl fun _ h => h⟩

theorem run_inv {actions : List (Action Page Entry Cursor Request Notification)}
    (h : Inv o floor s) (hadmits : Guarded (step o) (Admits o) s actions)
    (hrun : run (step o) s actions = some t) : Inv o floor t :=
  run_induction_of_guarded (fun _ _ _ hs hadmits hstep => step_inv hs hadmits hstep) h hadmits
    hrun

/-- Entries that are their own cursor, and pages that are lists of them. -/
def numbered : Options (List ℤ) ℤ ℤ Unit where
  name := "journal"
  emptyCursor := -1
  entries := id
  hasMore page := decide (page.head? ≠ some 0)
  first := id
  last := id
  follows left right := decide (left + 1 = right)
  follows_iff left right := by rw [decide_eq_true_eq, Order.covBy_iff_add_one_eq]
  repairRequest := id

end JournalStream

end TianmaCoder
