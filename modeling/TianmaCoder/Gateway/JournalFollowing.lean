import TianmaCoder.Gateway.JournalConforming

/-!
# The client of a conforming server

While the pages that complete are still wanted, the consumer follows what the server sends: it
never waits behind it, and a repair has queued the entries from the one run that was left out.

## Main definitions

* `JournalStream.Conformed` — the invariant of a run of a conforming server.
* `JournalStream.Outcome` — what a step does.

## Main results

* `JournalStream.next_outcome`, `JournalStream.page_outcome`, `JournalStream.prepended_outcome`.
-/

namespace TianmaCoder

open Checked Effect Transition

namespace JournalStream

variable {Page Entry Cursor Request Notification : Type} [LinearOrder Cursor]
  {o : Options Page Entry Cursor Request} {before : Request → Option Cursor}
  {journal : List Entry}

/-! ### The client of a conforming server -/

variable (o) in
/-- Where the consumer of a conforming server waits: what was sent lies behind the last cursor,
and a repair has queued the entries from the one run that was left out. -/
def Following (feed : Feed Cursor) (s : Stream Page Entry Cursor Request Notification) :
    Point Entry Cursor Request Notification → Prop
  | .unopened | .opening => feed.generation = 0
  | .idle =>
    s.opened = true ∧ ∀ last ∈ s.lastCursor,
      match feed.sent with
      | none => feed.cursor ≤ last
      | some sent => sent ≤ last
  | .reading repair =>
    s.opened = true ∧ feed.skipped = true ∧ ∃ entry rest, repair.queued = entry :: rest ∧
      repair.requiredCursor = o.last entry ∧ repair.through = o.last entry ∧
      Consecutive o.first o.last (entry :: rest) ∧
      feed.sent = some (tailCursor o (entry :: rest))
  | .replacing _ => s.opened = true
  | .closed _ => False

variable (o) in
/-- The invariant of a run of a conforming server. What was delivered is left out, since such a
server need not open at the end of the journal. -/
structure Conformed (w : World Page Entry Cursor Request Notification) : Prop where
  inv : Inv o none { w.state with delivered := [] }
  generation : w.feed.generation = w.state.stream.generation
  undisposed : w.state.stream.disposed = false
  following : Following o w.feed w.state.stream w.state.consumer

variable (o) in
/-- What a step that is absorbed does. -/
structure Outcome (s t : State Page Entry Cursor Request Notification) (feed : Feed Cursor) :
    Prop where
  generation : feed.generation = t.stream.generation
  undisposed : t.stream.disposed = false
  following : Following o feed t.stream t.consumer
  unreported : t.stream.failed = s.stream.failed
  complete : ∀ change ∈ t.stream.published.drop s.stream.published.length,
    change.2.endsHistory = true →
      ∀ head ∈ (window t.stream.published).head?, ∀ entry ∈ t.journal,
        o.first head ≤ o.first entry

variable {s t : State Page Entry Cursor Request Notification} {feed : Feed Cursor}

variable {stream : Stream Page Entry Cursor Request Notification}

omit [LinearOrder Cursor] in
theorem settle_ok
    {segment : M Page Entry Cursor Request Notification (Point Entry Cursor Request Notification)}
    {point : Point Entry Cursor Request Notification} (h : segment s.stream = .ok point stream) :
    settle s segment = { s with stream := stream, consumer := point } := by
  rw [settle, h]

/-- A step that publishes nothing. -/
theorem Outcome.quiet (hgeneration : feed.generation = stream.generation)
    (hdisposed : stream.disposed = false) (hpublished : stream.published = s.stream.published)
    (hfailed : stream.failed = s.stream.failed) (hstream : t.stream = stream)
    (hfollowing : Following o feed stream t.consumer) : Outcome o s t feed := by
  subst hstream
  refine ⟨hgeneration, hdisposed, hfollowing, hfailed, ?_⟩
  intro change hchange
  rw [hpublished, List.drop_length] at hchange
  cases hchange

variable {generation : ℕ} {page : Page}

theorem Outcome.opened {cursor : Cursor} (hjournal : Consecutive o.first o.last s.journal)
    (hslice : Slice o s.journal cursor none page) (hdisposed : s.stream.disposed = false) :
    Outcome o s
      { s with
        stream := { replaced o page (o.entries page) cursor
          { s.stream with generation := generation } with opened := true }
        consumer := .idle }
      ⟨generation, cursor, none, false⟩ := by
  refine ⟨rfl, hdisposed, ⟨rfl, ?_⟩, rfl, ?_⟩
  · intro last hlast
    cases hlast
    exact le_refl cursor
  · intro change hchange hends head hhead entry hentry
    have hnew : change = (generation, .replace page (o.entries page) (o.hasMore page)) := by
      rw [replaced, List.drop_left, List.mem_singleton] at hchange
      exact hchange
    subst hnew
    rw [replaced, window_concat] at hhead
    have hmore : o.hasMore page = false := by
      simpa [Change.endsHistory] using hends
    exact hslice.oldest hjournal hmore hhead hentry

variable {entry : Entry}

theorem boundary (hjournal : Consecutive o.first o.last journal)
    (hwindowed : Windowed o journal stream)
    (habove : ∀ entry ∈ journal, o.emptyCursor < o.first entry) {last : Cursor}
    (hlast : last ∈ stream.lastCursor) (hentry : entry ∈ journal) :
    o.last entry ≤ last ∨ last < o.first entry := by
  have htail := hwindowed.tail last hlast
  cases hwindow : (window stream.published).getLast? with
  | none =>
    rw [tailCursor, hwindow] at htail
    exact .inr (htail ▸ habove entry hentry)
  | some other =>
    rw [tailCursor, hwindow] at htail
    have hother := hwindowed.subset other (List.mem_of_getLast? hwindow)
    cases hjournal.compare hentry hother with
    | inl heq => exact .inl (by rw [heq, htail])
    | inr hlt =>
      cases hlt with
      | inl hbefore =>
        exact .inl (htail ▸ hbefore.le.trans (hjournal.ordered other hother))
      | inr hafter => exact .inr (htail ▸ hafter)

variable {w : World Page Entry Cursor Request Notification}

theorem entry_continues {last : Cursor}
    (hbehind : match feed.sent with | none => feed.cursor ≤ last | some sent => sent ≤ last)
    (hskips : feed.skips o entry = false) (hlt : last < o.first entry) : last ⋖ o.first entry := by
  have hcover : ∀ sent : Cursor, sent ≤ last → sent ⋖ o.first entry → last ⋖ o.first entry := by
    intro sent hle hcov
    have heq : last = sent := le_antisymm (not_lt.mp fun hlt' => hcov.2 hlt' hlt) hle
    exact heq ▸ hcov
  cases hsent : feed.sent with
  | none =>
    rw [hsent] at hbehind
    rw [Feed.skips, hsent] at hskips
    simp only [Bool.and_eq_false_iff, decide_eq_false_iff_not, Bool.not_eq_false'] at hskips
    cases hskips with
    | inl hnot => exact absurd (hbehind.trans_lt hlt) hnot
    | inr hfollows => exact hcover feed.cursor hbehind ((o.follows_iff _ _).mp hfollows)
  | some sent =>
    rw [hsent] at hbehind
    rw [Feed.skips, hsent, Bool.not_eq_false'] at hskips
    exact hcover sent hbehind ((o.follows_iff _ _).mp hskips)

theorem consume_entry {stream' : Stream Page Entry Cursor Request Notification}
    {repair : Option (Repair Entry Cursor Request Notification)}
    (hsame : generation = stream.generation)
    (hrun : acceptEntry o entry generation stream = .ok repair stream') :
    consume o (.item ⟨generation, .entry entry⟩) stream
      = .ok (repair.elim .idle .reading) stream' := by
  rw [consume, get_bind, if_neg (not_not.mpr hsame)]
  change EStateM.bind (acceptEntry o entry generation) _ stream = _
  simp only [EStateM.bind, hrun]
  rfl

variable {aborted streamAborted : Bool}

/-- A live entry is behind the window, continues it, or comes after the one run left out. -/
theorem entry_outcome (h : Conformed o w) (hidle : w.state.consumer = .idle)
    (hconforms : Conforms o before w
      (.next (.item ⟨generation, .entry entry⟩) aborted streamAborted))
    (hstep : JournalStream.step o w.state
      (.next (.item ⟨generation, .entry entry⟩) aborted streamAborted) = some t) :
    Outcome o w.state t (w.feed.send o (⟨generation, .entry entry⟩ :
      Item Page Entry Cursor Notification)) := by
  have hbase := h.inv.base
  have hfollowing := h.following
  rw [hidle] at hfollowing
  obtain ⟨hopened, hbehind⟩ := hfollowing
  obtain ⟨hgeneration, -, hentry, -, hskipped⟩ := hconforms
  have hordered : o.first entry ≤ o.last entry := hbase.journal.ordered entry hentry
  obtain ⟨last, hlast⟩ := Option.ne_none_iff_exists'.mp (hbase.opened hopened)
  have hstate : ∀ (repair : Option (Repair Entry Cursor Request Notification)) stream,
      acceptEntry o entry generation w.state.stream = .ok repair stream →
      t = { take w.state (.item ⟨generation, .entry entry⟩) with
        stream := stream, consumer := repair.elim .idle .reading } := by
    intro repair stream hrun
    rw [JournalStream.step, hidle] at hstep
    cases hstep
    exact settle_ok (consume_entry (hgeneration.trans h.generation) hrun)
  by_cases hbehindWindow : o.last entry ≤ last
  · have ht := hstate none w.state.stream (acceptEntry_behind hordered hlast hbehindWindow)
    subst ht
    refine Outcome.quiet h.generation h.undisposed rfl rfl rfl ⟨hopened, ?_⟩
    intro other hother
    cases hlast.symm.trans hother
    exact hbehindWindow
  · have hlt : last < o.first entry :=
      (boundary hbase.journal hbase.windowed hbase.above hlast hentry).resolve_left hbehindWindow
    by_cases hcov : last ⋖ o.first entry
    · have ht := hstate none _ (acceptEntry_next hordered hlast hcov)
      subst ht
      refine ⟨h.generation, h.undisposed, ⟨hopened, ?_⟩, rfl, ?_⟩
      · intro other hother
        cases hother
        exact le_refl _
      · intro change hchange hends
        have hnew : change = (w.state.stream.generation, .append entry) := by
          rw [appended, List.drop_left, List.mem_singleton] at hchange
          exact hchange
        subst hnew
        cases hends
    · have ht := hstate _ w.state.stream (acceptEntry_gap hordered hlast hlt hcov)
      have hskips : w.feed.skips o entry = true := by
        by_contra hnot
        exact hcov (entry_continues (hbehind last hlast) (Bool.eq_false_iff.mpr hnot) hlt)
      subst ht
      refine Outcome.quiet h.generation h.undisposed rfl rfl rfl ⟨hopened, ?_, entry, [], rfl,
        rfl, rfl, Consecutive.singleton hordered, rfl⟩
      change (w.feed.skipped || w.feed.skips o entry) = true
      rw [hskips, Bool.or_true]

theorem outcome_of_replaced
    {segment : M Page Entry Cursor Request Notification (Point Entry Cursor Request Notification)}
    {cursor : Cursor} (hjournal : Consecutive o.first o.last s.journal)
    (hslice : Slice o s.journal cursor none page) (hdisposed : s.stream.disposed = false)
    (hopened : s.stream.opened = true) (hrun : segment s.stream = .ok .idle
      (replaced o page (o.entries page) cursor { s.stream with generation := generation })) :
    Outcome o s (settle s segment) ⟨generation, cursor, none, false⟩ := by
  have hflag : replaced o page (o.entries page) cursor { s.stream with generation := generation }
      = { replaced o page (o.entries page) cursor
        { s.stream with generation := generation } with opened := true } := by
    rw [← hopened]
    rfl
  rw [settle_ok hrun, hflag]
  exact Outcome.opened hjournal hslice hdisposed

theorem opened_outcome {cursor : Cursor} (h : Conformed o w) (hconforms : Conforms o before w
      (.next (.item ⟨generation, .opened cursor page⟩) aborted streamAborted))
    (hstep : JournalStream.step o w.state
      (.next (.item ⟨generation, .opened cursor page⟩) aborted streamAborted) = some t) :
    Outcome o w.state t ⟨generation, cursor, none, false⟩ := by
  have hbase := h.inv.base
  have hpoint := h.inv.point
  have hfollowing := h.following
  obtain ⟨hnewer, hslice, htail, hlast⟩ := hconforms
  have hpage := hbase.journal.of_isInfix (hslice.isInfix hbase.journal)
  have hne : generation ≠ w.state.stream.generation := h.generation ▸ Nat.ne_of_gt hnewer
  have hrun : ∀ resumed, replaceGeneration o
      (⟨generation, .opened cursor page⟩ : Item Page Entry Cursor Notification) resumed
      w.state.stream = _ := fun resumed => replaceGeneration_opened hpage htail hlast
  have hreplaced : (do
      replaceGeneration o (⟨generation, .opened cursor page⟩ :
        Item Page Entry Cursor Notification) true
      pure (.idle : Point Entry Cursor Request Notification)) w.state.stream
        = .ok .idle (replaced o page (o.entries page) cursor
          { w.state.stream with generation := generation }) := by
    change EStateM.bind _ _ w.state.stream = _
    simp only [EStateM.bind, hrun]
    rfl
  rw [JournalStream.step] at hstep
  cases hconsumer : w.state.consumer with
  | unopened =>
    rw [hconsumer] at hstep
    cases hstep
  | closed error =>
    rw [hconsumer] at hfollowing
    exact hfollowing.elim
  | opening =>
    rw [hconsumer] at hstep
    cases hstep
    have hsettle : openFirst o (.item ⟨generation, .opened cursor page⟩) w.state.stream
        = .ok (.idle : Point Entry Cursor Request Notification)
          { replaced o page (o.entries page) cursor
            { w.state.stream with generation := generation } with opened := true } := by
      change EStateM.bind _ _ w.state.stream = _
      simp only [EStateM.bind, hrun]
      rfl
    rw [take_opened, settle_ok hsettle]
    exact Outcome.opened hbase.journal hslice h.undisposed
  | idle =>
    rw [hconsumer] at hstep hfollowing
    cases hstep
    refine outcome_of_replaced hbase.journal hslice h.undisposed hfollowing.1 ?_
    rw [consume, get_bind, if_pos hne]
    exact hreplaced
  | reading repair =>
    rw [hconsumer] at hstep hfollowing hpoint
    have hsame : repair.generation = w.state.stream.generation := hpoint.2.1
    cases hstep
    refine outcome_of_replaced hbase.journal hslice h.undisposed hfollowing.1 ?_
    rw [readNext, if_pos (hsame ▸ hne)]
    exact hreplaced
  | replacing current =>
    rw [hconsumer] at hstep hfollowing hpoint
    have hsame : current = w.state.stream.generation := hpoint.2
    cases hstep
    refine outcome_of_replaced hbase.journal hslice h.undisposed hfollowing ?_
    rw [awaitNext, if_pos (hsame ▸ hne)]
    exact hreplaced

/-- Frames of the generation itself are taken where the consumer waits. -/
theorem frame_outcome {value : Frame Page Entry Cursor Notification} (h : Conformed o w)
    (hopened : ∀ cursor page, value ≠ .opened cursor page)
    (hconforms : Conforms o before w (.next (.item ⟨generation, value⟩) aborted streamAborted))
    (hstep : JournalStream.step o w.state
      (.next (.item ⟨generation, value⟩) aborted streamAborted) = some t) :
    Outcome o w.state t (w.feed.send o ⟨generation, value⟩) := by
  have hpoint := h.inv.point
  have hfollowing := h.following
  have hcurrent : generation = w.feed.generation ∧ 0 < generation := by
    cases value with
    | opened cursor page => exact absurd rfl (hopened cursor page)
    | entry entry => exact ⟨hconforms.1, hconforms.2.1⟩
    | notification notification => exact hconforms
  have hsame : generation = w.state.stream.generation := hcurrent.1.trans h.generation
  have hsend : (w.feed.send o (⟨generation, value⟩ : Item Page Entry Cursor Notification)).generation
      = w.state.stream.generation := by
    cases value with
    | opened cursor page => exact absurd rfl (hopened cursor page)
    | entry entry => exact h.generation
    | notification notification => exact h.generation
  cases hconsumer : w.state.consumer with
  | unopened =>
    rw [JournalStream.step, hconsumer] at hstep
    cases hstep
  | closed error =>
    rw [hconsumer] at hfollowing
    exact hfollowing.elim
  | opening =>
    -- nothing is sent before the first generation opens
    rw [hconsumer] at hfollowing
    exact absurd (hcurrent.1.trans hfollowing) (Nat.ne_of_gt hcurrent.2)
  | idle =>
    cases value with
    | opened cursor page => exact absurd rfl (hopened cursor page)
    | entry entry => exact entry_outcome h hconsumer hconforms hstep
    | notification notification =>
      rw [JournalStream.step, hconsumer] at hstep
      rw [hconsumer] at hfollowing
      cases hstep
      have hrun : consume o (.item ⟨generation, .notification notification⟩) w.state.stream
          = .ok (.idle : Point Entry Cursor Request Notification) { w.state.stream with
            published := w.state.stream.published
              ++ [(w.state.stream.generation, .notification notification)] } := by
        rw [consume, get_bind, if_neg (not_not.mpr hsame)]
        rfl
      have hstream : (take w.state (.item ⟨generation, .notification notification⟩)).stream
          = w.state.stream := rfl
      rw [settle_ok (hstream ▸ hrun)]
      refine ⟨h.generation, h.undisposed, hfollowing, rfl, ?_⟩
      intro change hchange hends
      have hnew : change = (w.state.stream.generation, .notification notification) := by
        rw [List.drop_left, List.mem_singleton] at hchange
        exact hchange
      subst hnew
      cases hends
  | reading repair =>
    rw [JournalStream.step, hconsumer] at hstep
    rw [hconsumer] at hfollowing hpoint
    obtain ⟨hopen, hskipped, entry, rest, hqueued, hrequired, hthrough, hcon, hsent⟩ := hfollowing
    have hrepair : ¬generation ≠ repair.generation := not_not.mpr (hsame.trans hpoint.2.1.symm)
    cases hstep
    cases value with
    | opened cursor page => exact absurd rfl (hopened cursor page)
    | notification notification =>
      have hrun : readNext o repair (.item ⟨generation, .notification notification⟩) aborted
          w.state.stream = .ok (.reading { repair with
            notifications := repair.notifications ++ [notification] }) w.state.stream := by
        rw [readNext, if_neg hrepair]
        rfl
      have hstream : (take w.state (.item ⟨generation, .notification notification⟩)).stream
          = w.state.stream := rfl
      rw [settle_ok (hstream ▸ hrun)]
      exact Outcome.quiet h.generation h.undisposed rfl rfl rfl
        ⟨hopen, hskipped, entry, rest, hqueued, hrequired, hthrough, hcon, hsent⟩
    | entry next =>
      obtain ⟨-, -, hnext, -, hskips⟩ := hconforms
      have hcontinues : w.feed.skips o next = false := hskips hskipped
      rw [Feed.skips, hsent, Bool.not_eq_false'] at hcontinues
      have hcov := (o.follows_iff _ _).mp hcontinues
      have hrun : readNext o repair (.item ⟨generation, .entry next⟩) aborted
          w.state.stream = .ok (.reading { repair with
            queued := repair.queued ++ [next] }) w.state.stream := by
        rw [readNext, if_neg hrepair]
        rfl
      have hstream : (take w.state (.item ⟨generation, .entry next⟩)).stream
          = w.state.stream := rfl
      rw [settle_ok (hstream ▸ hrun)]
      have hgrown : Consecutive o.first o.last (entry :: (rest ++ [next])) := by
        refine Consecutive.append hcon
          (Consecutive.singleton (h.inv.base.journal.ordered next hnext)) ?_
        intro x hx y hy
        cases hy
        have htail : tailCursor o (entry :: rest) = o.last x := by
          simp only [tailCursor, Option.mem_def.mp hx]
        exact htail ▸ hcov
      refine Outcome.quiet h.generation h.undisposed rfl rfl rfl ⟨hopen, ?_, entry,
        rest ++ [next], ?_, hrequired, hthrough, hgrown, ?_⟩
      · change (w.feed.skipped || w.feed.skips o next) = true
        rw [hskipped, Bool.true_or]
      · change repair.queued ++ [next] = _
        rw [hqueued, List.cons_append]
      · exact congrArg some (reach_concat o.emptyCursor (entry :: rest) next).symm
  | replacing current =>
    rw [JournalStream.step, hconsumer] at hstep
    rw [hconsumer] at hfollowing hpoint
    have hreplacing : ¬generation ≠ current := not_not.mpr (hsame.trans hpoint.2.symm)
    cases hstep
    have hrun : awaitNext o current (.item ⟨generation, value⟩) streamAborted
        w.state.stream = .ok (.replacing current) w.state.stream := by
      rw [awaitNext, if_neg hreplacing]
      cases value with
      | opened cursor page => exact absurd rfl (hopened cursor page)
      | entry entry => rfl
      | notification notification => rfl
    have hstream := take_stream (s := w.state) (.item ⟨generation, value⟩)
    rw [settle_ok (hstream.symm ▸ hrun)]
    exact Outcome.quiet hsend h.undisposed rfl rfl hstream hfollowing

theorem next_outcome {item : Item Page Entry Cursor Notification} (h : Conformed o w)
    (hconforms : Conforms o before w (.next (.item item) aborted streamAborted))
    (hstep : JournalStream.step o w.state (.next (.item item) aborted streamAborted) = some t) :
    Outcome o w.state t (w.feed.send o item) := by
  obtain ⟨generation, value⟩ := item
  cases value with
  | opened cursor page => exact opened_outcome h hconforms hstep
  | entry entry => exact frame_outcome h (fun _ _ heq => nomatch heq) hconforms hstep
  | notification notification =>
    exact frame_outcome h (fun _ _ heq => nomatch heq) hconforms hstep

/-- The page of a repair commits it, and a failed read of an aborted generation waits for the
next one. -/
theorem page_outcome {result : Except Failure Page} (h : Conformed o w)
    (hconforms : Conforms o before w (.page result aborted streamAborted))
    (habsorbed : Absorbed o before w (.page result aborted streamAborted))
    (hstep : JournalStream.step o w.state (.page result aborted streamAborted) = some t) :
    Outcome o w.state t w.feed := by
  have hbase := h.inv.base
  have hpoint := h.inv.point
  have hfollowing := h.following
  rw [JournalStream.step] at hstep
  cases hconsumer : w.state.consumer with
  | reading repair =>
    rw [hconsumer] at hstep hfollowing hpoint
    obtain ⟨hopen, hskipped, entry, rest, hqueued, hrequired, hthrough, hcon, hsent⟩ := hfollowing
    cases hstep
    cases result with
    | error error =>
      obtain ⟨haborted, hstream⟩ := hconforms
      have hrun : readPage o repair (.error error) aborted streamAborted w.state.stream
          = .ok (.replacing repair.generation) w.state.stream := by
        rw [readPage, haborted, hstream]
        rfl
      rw [settle_ok hrun]
      exact Outcome.quiet h.generation h.undisposed rfl rfl rfl hopen
    | ok page =>
      have hslice := hconforms.2 repair hconsumer
      have haborted : aborted = false := habsorbed repair hconsumer
      rw [hthrough] at hslice
      have hentry : entry ∈ w.state.journal := hpoint.2.2.2.1 entry (by simp [hqueued])
      have hpage := hbase.journal.of_isInfix (hslice.isInfix hbase.journal)
      have hne : o.entries page ≠ [] := by
        intro hnil
        have hasked : entry ∈ asked o w.state.journal (o.last entry) none :=
          mem_asked.mpr ⟨hentry, le_refl _, fun _ h => by cases h⟩
        rw [hslice.nonempty hnil] at hasked
        cases hasked
      have hcommit := afterPage_commits (s := w.state.stream) hpage
        (hslice.tail hbase.journal hentry) hcon hqueued hthrough hrequired hne
      have hrun : readPage o repair (.ok page) aborted streamAborted w.state.stream
          = .ok .idle (committed o page (o.entries page ++ rest) repair.notifications
            w.state.stream) := by
        rw [readPage, haborted]
        change EStateM.bind (afterPage o repair page) _ w.state.stream = _
        simp only [EStateM.bind, hcommit]
        rfl
      rw [settle_ok hrun]
      have hmerged := (mergeReplacement_ok (mergeReplacement_of_consecutive hpage
        (hslice.tail hbase.journal hentry) hcon)).1
      refine ⟨h.generation, h.undisposed, ⟨hopen, ?_⟩, rfl, ?_⟩
      · intro last hlast
        have htail : last = tailCursor o (o.entries page ++ rest) := by
          cases hlast
          rfl
        subst htail
        simp only [hsent]
        cases rest with
        | nil =>
          rw [List.append_nil, hslice.tail hbase.journal hentry]
          exact le_refl _
        | cons next rest =>
          have hlast : tailCursor o (o.entries page ++ next :: rest)
              = tailCursor o (entry :: next :: rest) :=
            (reach_append_of_ne_nil (List.cons_ne_nil next rest) _).trans
              (reach_append_of_ne_nil (List.cons_ne_nil next rest) _ :
                reach o.last o.emptyCursor ([entry] ++ next :: rest) = _).symm
          rw [hlast]
      · intro change hchange hends head hhead other hother
        simp only [committed, replaced, List.append_assoc, List.drop_left,
          List.singleton_append, List.mem_cons, List.mem_map] at hchange
        cases hchange with
        | inr hnote =>
          obtain ⟨notification, -, hnote⟩ := hnote
          subst hnote
          cases hends
        | inl hreplace =>
          subst hreplace
          have hmore : o.hasMore page = false := by
            simpa [Change.endsHistory] using hends
          have hwindow : window (committed o page (o.entries page ++ rest)
              repair.notifications w.state.stream).published = o.entries page ++ rest := by
            rw [committed, window_notifications, replaced, window_concat]
            rfl
          rw [hwindow, List.head?_append_of_ne_nil _ hne] at hhead
          exact hslice.oldest hbase.journal hmore hhead hother
  | _ =>
    rw [hconsumer] at hstep
    cases hstep

/-! ### History pages -/

variable {bound : Option Cursor}

theorem asked_of_before (hjournal : Consecutive o.first o.last journal) {through : Cursor}
    {other : Entry} (hentry : entry ∈ journal) (hother : other ∈ asked o journal through bound)
    (hlt : o.last entry < o.first other) : entry ∈ asked o journal through bound := by
  have ⟨hin, hle, hbound⟩ := mem_asked.mp hother
  have hordered := hjournal.ordered entry hentry
  refine mem_asked.mpr ⟨hentry, ?_, ?_⟩
  · exact hlt.le.trans ((hjournal.ordered other hin).trans hle)
  · exact fun cursor hcursor => (hordered.trans_lt hlt).trans (hbound cursor hcursor)

theorem Slice.after {through : Cursor} (hslice : Slice o journal through bound page)
    (hjournal : Consecutive o.first o.last journal) {other : Entry}
    (hentry : entry ∈ o.entries page) (hother : other ∈ asked o journal through bound)
    (hlt : o.last entry < o.first other) : other ∈ o.entries page := by
  obtain ⟨older, holder⟩ := hslice.isSuffix
  have hcon := hjournal.of_isInfix (asked_isPrefix hjournal through bound).isInfix
  rw [← holder] at hother hcon
  cases List.mem_append.mp hother with
  | inr hin => exact hin
  | inl hold =>
    have hback : o.last other < o.first entry :=
      (List.pairwise_append.mp hcon.pairwise).2.2 other hold entry hentry
    have hentryOrdered := hcon.ordered entry (List.mem_append_right older hentry)
    have hotherOrdered := hcon.ordered other (List.mem_append_left _ hold)
    have hle := hotherOrdered.trans (hback.le.trans hentryOrdered)
    exact absurd hlt (not_lt.mpr hle)

theorem head_of_firstCursor {head : Cursor} (hwindowed : Windowed o journal stream)
    (hfirst : stream.firstCursor = some head) :
    ∃ entry ∈ journal, entry ∈ (window stream.published).head? ∧ o.first entry = head := by
  rw [hwindowed.head] at hfirst
  obtain ⟨entry, hentry, hsame⟩ := Option.map_eq_some_iff.mp hfirst
  exact ⟨entry, hwindowed.subset entry (List.mem_of_head? hentry), hentry, hsame⟩

theorem Slice.reaches {head : Cursor} {through : Cursor}
    (hslice : Slice o journal through bound page) (hjournal : Consecutive o.first o.last journal)
    (hwindowed : Windowed o journal stream) (hfirst : stream.firstCursor = some head)
    (hall : ∀ entry ∈ journal, o.first entry < head → entry ∈ asked o journal through bound)
    {tail : Entry}
    (htail : tail ∈ ((o.entries page).filter fun entry => decide (o.first entry < head)).getLast?) :
    o.last tail ⋖ head := by
  obtain ⟨x, hx, -, hxhead⟩ := head_of_firstCursor hwindowed hfirst
  have hpage := hjournal.of_isInfix (hslice.isInfix hjournal)
  have hkept := hpage.of_isInfix (hpage.filter_lt_isPrefix head).isInfix
  have ⟨hmem, hbefore⟩ := List.mem_filter.mp (List.mem_of_getLast? htail)
  rw [decide_eq_true_eq] at hbefore
  have hin : tail ∈ journal := (hslice.isInfix hjournal).subset hmem
  have hlt : o.last tail < o.first x := by
    cases hjournal.compare hin hx with
    | inl heq => exact absurd hbefore (by rw [heq, hxhead]; exact lt_irrefl head)
    | inr hor =>
      cases hor with
      | inl hlt => exact hlt
      | inr hback =>
        have hle := (hjournal.ordered x hx).trans hback.le
        exact absurd hbefore (not_lt.mpr (hxhead ▸ hle))
  cases hjournal.covBy_or_between hin hx hlt with
  | inl hcov => exact hxhead ▸ hcov
  | inr hbetween =>
    -- an entry in between would be in the page, behind its last one
    obtain ⟨z, hz, htz, hzx⟩ := hbetween
    have hzhead : o.first z < head := hxhead ▸ (hjournal.ordered z hz).trans_lt hzx
    have hzpage := hslice.after hjournal hmem (hall z hz hzhead) htz
    have hzkept : z ∈ (o.entries page).filter fun entry => decide (o.first entry < head) :=
      List.mem_filter.mpr ⟨hzpage, decide_eq_true hzhead⟩
    have hle := hkept.le_reach o.emptyCursor hzkept
    rw [reach, Option.mem_def.mp htail] at hle
    exact absurd htz (not_lt.mpr ((hjournal.ordered z hz).trans hle))

theorem Conformed.prepends {call : Request × Cursor} (h : Conformed o w)
    (hcall : call ∈ w.state.prepends) (hslice : Slice o w.state.journal call.2 (before call.1) page)
    (hall : ∀ head ∈ w.state.stream.firstCursor, ∀ entry ∈ w.state.journal,
      o.first entry < head → entry ∈ asked o w.state.journal call.2 (before call.1)) :
    ∃ accepted, prependPage o page false w.state.stream
        = .ok () (prepended o page accepted (o.hasMore page) w.state.stream) ∧
      (o.hasMore page = false →
        ∀ head ∈ (accepted ++ window w.state.stream.published).head?,
          ∀ entry ∈ w.state.journal, o.first head ≤ o.first entry) := by
  have hbase := h.inv.base
  have hpage := hbase.journal.of_isInfix (hslice.isInfix hbase.journal)
  cases hfirst : w.state.stream.firstCursor with
  | none =>
    have hempty : window w.state.stream.published = [] := by
      have hhead := hbase.windowed.head
      rw [hfirst] at hhead
      exact List.head?_eq_none_iff.mp (Option.map_eq_none_iff.mp hhead.symm)
    obtain ⟨last, hlast, hle⟩ := hbase.calls call hcall
    have htail := hbase.windowed.tail last hlast
    rw [show window w.state.stream.published = [] from hempty] at htail
    have hnil : o.entries page = [] := by
      refine List.eq_nil_iff_forall_not_mem.mpr ?_
      intro entry hentry
      have hin := mem_asked.mp (hslice.isSuffix.subset hentry)
      have hlow : o.last entry ≤ o.emptyCursor := hin.2.1.trans (hle.trans htail.le)
      have hup := (hbase.above entry hin.1).trans_le (hbase.journal.ordered entry hin.1)
      exact absurd hup (not_lt.mpr hlow)
    refine ⟨[], prependPage_empty hfirst hnil, ?_⟩
    intro _ head hhead
    rw [List.nil_append, hempty] at hhead
    cases hhead
  | some head =>
    refine ⟨_, prependPage_fits hpage hfirst fun tail htail =>
      hslice.reaches hbase.journal hbase.windowed hfirst (hall head hfirst) htail, ?_⟩
    intro hmore first hhead entry hentry
    obtain ⟨x, hx, hxwindow, hxhead⟩ := head_of_firstCursor hbase.windowed hfirst
    cases hkept : (o.entries page).filter fun entry => decide (o.first entry < head) with
    | nil =>
      rw [hkept, List.nil_append] at hhead
      cases (Option.mem_def.mp hxwindow).symm.trans hhead
      by_contra hlt
      rw [hxhead] at hlt
      have hin := hall head hfirst entry hentry (not_le.mp hlt)
      rw [← hslice.hasMore.mp hmore] at hin
      have hmem : entry ∈ (o.entries page).filter fun entry => decide (o.first entry < head) :=
        List.mem_filter.mpr ⟨hin, decide_eq_true (not_le.mp hlt)⟩
      rw [hkept] at hmem
      cases hmem
    | cons y rest =>
      rw [hkept] at hhead
      cases hhead
      refine hslice.oldest hbase.journal hmore ?_ hentry
      obtain ⟨later, hlater⟩ := hpage.filter_lt_isPrefix head
      rw [← hlater, hkept]
      rfl

theorem prepended_outcome {index : ℕ} {result : Except Failure Page} (h : Conformed o w)
    (hconforms : Conforms o before w (.prepended index result aborted))
    (habsorbed : Absorbed o before w (.prepended index result aborted))
    (hstep : JournalStream.step o w.state (.prepended index result aborted) = some t) :
    Outcome o w.state t w.feed := by
  rw [JournalStream.step] at hstep
  cases hcall : w.state.prepends[index]? with
  | none =>
    rw [hcall] at hstep
    cases hstep
  | some call =>
    rw [hcall] at hstep
    cases result with
    | error error =>
      cases hstep
      exact Outcome.quiet h.generation h.undisposed rfl rfl rfl h.following
    | ok page =>
      obtain ⟨haborted, hslices⟩ := hconforms
      subst haborted
      obtain ⟨accepted, hrun, holdest⟩ := h.prepends (List.mem_of_getElem? hcall)
        (hslices call hcall) fun head hhead entry hentry hlt =>
          mem_asked.mpr ⟨hentry, habsorbed call hcall head hhead entry hentry hlt⟩
      simp only [hrun, Option.some.injEq] at hstep
      subst hstep
      refine ⟨h.generation, h.undisposed, ?_, rfl, ?_⟩
      · have hfollowing := h.following
        change Following o w.feed _ w.state.consumer
        cases hconsumer : w.state.consumer with
        | unopened | opening | idle | reading repair | replacing current | closed error =>
          rw [hconsumer] at hfollowing
          exact hfollowing
      · intro change hchange hends head hhead
        have hnew : change = (w.state.stream.generation,
            .prepend page accepted (o.hasMore page)) := by
          rw [prepended, List.drop_left, List.mem_singleton] at hchange
          exact hchange
        subst hnew
        rw [prepended, window_concat] at hhead
        exact holdest (by simpa [Change.endsHistory] using hends) head hhead

end JournalStream

end TianmaCoder
