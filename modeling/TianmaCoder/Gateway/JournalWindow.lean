import TianmaCoder.Gateway.JournalStream

/-!
# The window of the journal stream

A consumer applies the published changes to a window. The window is made of consecutive entries
of the journal, and it lies between the two cursors of the stream. Each segment keeps that and
moves the last cursor forward only.

## Main definitions

* `JournalStream.window` — the published changes applied in order.
* `JournalStream.Windowed`, `JournalStream.Advances` — what every segment keeps and does.

## Main results

* `JournalStream.replaceGeneration_leaves`, `JournalStream.acceptEntry_leaves`,
  `JournalStream.afterPage_leaves`, `JournalStream.prependPage_leaves`.
-/

namespace TianmaCoder

open Checked Effect Transition

namespace JournalStream

variable {Page Entry Cursor Request Notification : Type}

/-- A consumer applies one change to its window. -/
def applyChange (window : List Entry) : Change Page Entry Notification → List Entry
  | .replace _ entries _ => entries
  | .prepend _ entries _ => entries ++ window
  | .append entry => window ++ [entry]
  | .notification _ => window

/-- The window after the published changes. -/
def window (published : List (ℕ × Change Page Entry Notification)) : List Entry :=
  published.foldl (fun window change => applyChange window change.2) []

/-- The notifications published in a generation. -/
def notificationsIn (generation : ℕ) (published : List (ℕ × Change Page Entry Notification)) :
    List Notification :=
  published.filterMap fun change =>
    match change.2 with
    | .notification notification =>
      if change.1 = generation then some notification else none
    | _ => none

/-- The notifications that arrived in a generation. -/
def arrivedIn (generation : ℕ) (arrived : List (ℕ × Notification)) : List Notification :=
  (arrived.filter fun note => decide (note.1 = generation)).map Prod.snd

variable [LinearOrder Cursor] (o : Options Page Entry Cursor Request)

/-! ### The window and the notifications -/

@[simp] theorem window_concat (published : List (ℕ × Change Page Entry Notification))
    (change : ℕ × Change Page Entry Notification) :
    window (published ++ [change]) = applyChange (window published) change.2 := by
  simp [window]

variable (generation : ℕ)

@[simp] theorem notificationsIn_append (xs ys : List (ℕ × Change Page Entry Notification)) :
    notificationsIn generation (xs ++ ys)
      = notificationsIn generation xs ++ notificationsIn generation ys :=
  List.filterMap_append

theorem notificationsIn_singleton (g generation : ℕ) (notification : Notification) :
    notificationsIn g
        [(generation, (.notification notification : Change Page Entry Notification))]
      = if generation = g then [notification] else [] := by
  by_cases hg : generation = g
  · simp [notificationsIn, hg]
  · simp [notificationsIn, hg]

theorem arrivedIn_singleton (g generation : ℕ) (notification : Notification) :
    arrivedIn g [(generation, notification)]
      = if generation = g then [notification] else [] := by
  by_cases hg : generation = g
  · simp [arrivedIn, hg]
  · simp [arrivedIn, hg]

@[simp] theorem arrivedIn_append (xs ys : List (ℕ × Notification)) :
    arrivedIn generation (xs ++ ys) = arrivedIn generation xs ++ arrivedIn generation ys := by
  simp [arrivedIn]

theorem arrivedIn_eq_nil {generation bound : ℕ} {arrived : List (ℕ × Notification)}
    (h : ∀ note ∈ arrived, note.1 ≤ bound) (hlt : bound < generation) :
    arrivedIn generation arrived = [] := by
  rw [arrivedIn, List.map_eq_nil_iff, List.filter_eq_nil_iff]
  intro note hnote
  have hle := h note hnote
  simp only [decide_eq_true_eq]
  omega

/-! ### The checks -/

variable {o}

theorem entryRange_ok {entry : Entry} {range : Cursor × Cursor}
    (h : entryRange o entry = .ok range) :
    range = (o.first entry, o.last entry) ∧ o.first entry ≤ o.last entry := by
  simp only [entryRange, throw_eq, guard_ok_iff, pure_eq, Except.ok.injEq] at h
  exact ⟨h.2.symm, not_lt.mp h.1⟩

theorem assertPageAfter_ok {entries : List Entry} {entry : Entry}
    (hentry : o.first entry ≤ o.last entry)
    (h : assertPageAfter o (o.last entry) entries = .ok ()) :
    Consecutive o.first o.last (entry :: entries) := by
  induction entries generalizing entry with
  | nil => exact Consecutive.singleton hentry
  | cons next rest ih =>
    rw [assertPageAfter, bind_ok_iff] at h
    have ⟨range, hrange, h⟩ := h
    have ⟨hsame, hnext⟩ := entryRange_ok hrange
    subst hsame
    by_cases hfollows : o.follows (o.last entry) (o.first next) = true
    · rw [if_pos hfollows] at h
      refine Consecutive.append (Consecutive.singleton hentry) (ih hnext h) ?_
      intro x hx y hy
      cases hx
      cases hy
      exact (o.follows_iff _ _).mp hfollows
    · rw [if_neg hfollows] at h
      cases h

theorem assertPage_ok {entries : List Entry} (h : assertPage o entries = .ok ()) :
    Consecutive o.first o.last entries := by
  cases entries with
  | nil => exact Consecutive.nil
  | cons entry rest =>
    rw [assertPage, bind_ok_iff] at h
    have ⟨range, hrange, h⟩ := h
    have ⟨hsame, hentry⟩ := entryRange_ok hrange
    subst hsame
    exact assertPageAfter_ok hentry h

theorem assertPageThrough_ok {page : Page} {through : Cursor}
    (h : assertPageThrough o page through = .ok ()) : tailCursor o (o.entries page) = through := by
  simp only [assertPageThrough, throw_eq, guard_ok_iff, not_not] at h
  exact h.1

theorem le_maxCursor (cursor : Cursor) (entries : List Entry) :
    cursor ≤ maxCursor o cursor entries ∧
      ∀ entry ∈ entries, o.last entry ≤ maxCursor o cursor entries := by
  induction entries generalizing cursor with
  | nil => exact ⟨le_refl cursor, fun _ h => absurd h List.not_mem_nil⟩
  | cons entry rest ih =>
    have ⟨hhead, hrest⟩ := ih (if cursor < o.last entry then o.last entry else cursor)
    have hboth : cursor ≤ (if cursor < o.last entry then o.last entry else cursor) ∧
        o.last entry ≤ (if cursor < o.last entry then o.last entry else cursor) := by
      by_cases hlt : cursor < o.last entry
      · rw [if_pos hlt]
        exact ⟨hlt.le, le_refl _⟩
      · rw [if_neg hlt]
        exact ⟨le_refl _, not_lt.mp hlt⟩
    refine ⟨hboth.1.trans hhead, ?_⟩
    intro other hother
    cases List.mem_cons.mp hother with
    | inl heq => exact heq ▸ hboth.2.trans hhead
    | inr hmem => exact hrest other hmem

theorem mergeSorted_ok {sorted entries merged : List Entry}
    (hentries : Consecutive o.first o.last entries)
    (hsorted : ∀ entry ∈ sorted, o.first entry ≤ o.last entry)
    (h : mergeSorted o entries (tailCursor o entries) sorted = .ok (some merged)) :
    Consecutive o.first o.last merged ∧ ∀ entry ∈ merged, entry ∈ entries ∨ entry ∈ sorted := by
  induction sorted generalizing entries with
  | nil =>
    cases h
    exact ⟨hentries, fun _ h => .inl h⟩
  | cons next rest ih =>
    have hrest : ∀ entry ∈ rest, o.first entry ≤ o.last entry :=
      fun entry hentry => hsorted entry (List.mem_cons_of_mem next hentry)
    rw [mergeSorted] at h
    by_cases hpast : o.last next ≤ tailCursor o entries
    · rw [if_pos hpast] at h
      have ⟨hmerged, hmem⟩ := ih hentries hrest h
      exact ⟨hmerged, fun e he => (hmem e he).imp_right (List.mem_cons_of_mem next)⟩
    · rw [if_neg hpast] at h
      by_cases hover : o.first next ≤ tailCursor o entries
      · rw [if_pos hover] at h
        cases h
      · rw [if_neg hover] at h
        by_cases hfollows : o.follows (tailCursor o entries) (o.first next) = true
        · have hreach : o.last next = tailCursor o (entries ++ [next]) :=
            (reach_concat o.emptyCursor entries next).symm
          rw [if_pos hfollows, hreach] at h
          have hgrown : Consecutive o.first o.last (entries ++ [next]) := by
            refine hentries.append (Consecutive.singleton (hsorted next (by simp))) ?_
            intro x hx y hy
            cases hy
            have htail : tailCursor o entries = o.last x := by
              simp only [tailCursor, Option.mem_def.mp hx]
            exact htail ▸ (o.follows_iff _ _).mp hfollows
          have ⟨hmerged, hmem⟩ := ih hgrown hrest h
          refine ⟨hmerged, ?_⟩
          intro e he
          cases hmem e he with
          | inl hin =>
            cases List.mem_append.mp hin with
            | inl hold => exact .inl hold
            | inr hnew => exact .inr (by simp [List.mem_singleton.mp hnew])
          | inr hin => exact .inr (List.mem_cons_of_mem next hin)
        · rw [if_neg hfollows] at h
          cases h

theorem forM_entryRange_ok {queued : List Entry}
    (h : (queued.forM fun entry => do let _ ← entryRange o entry) = (.ok () : Except Failure Unit)) :
    ∀ entry ∈ queued, o.first entry ≤ o.last entry := by
  induction queued with
  | nil => exact fun _ h => absurd h List.not_mem_nil
  | cons next rest ih =>
    rw [List.forM_eq_forM, List.forM_cons, bind_ok_iff] at h
    have ⟨_, hnext, hrest⟩ := h
    have ⟨range, hrange, _⟩ := bind_ok hnext
    intro entry hentry
    cases List.mem_cons.mp hentry with
    | inl heq => exact heq ▸ (entryRange_ok hrange).2
    | inr hmem => exact ih hrest entry hmem

/-- The merged entries are consecutive, and each comes from the page or from the queue. -/
theorem mergeReplacement_ok {page : Page} {queued merged : List Entry}
    (h : mergeReplacement o page queued = .ok (some merged)) :
    Consecutive o.first o.last merged ∧
      ∀ entry ∈ merged, entry ∈ o.entries page ∨ entry ∈ queued := by
  simp only [mergeReplacement, bind_ok_iff] at h
  have ⟨_, hpage, _, hqueued, h⟩ := h
  have hsorted : ∀ entry ∈ queued.mergeSort fun left right =>
      decide (o.first left ≤ o.first right), o.first entry ≤ o.last entry := by
    intro entry hentry
    exact forM_entryRange_ok hqueued entry (List.mem_mergeSort.mp hentry)
  have ⟨hmerged, hmem⟩ := mergeSorted_ok (assertPage_ok hpage) hsorted h
  exact ⟨hmerged, fun e he => (hmem e he).imp_right List.mem_mergeSort.mp⟩

/-! ### The segments -/

section Segments

variable (o) in
/-- The window is made of consecutive entries of the journal and lies between the cursors. -/
structure Windowed (journal : List Entry)
    (s : Stream Page Entry Cursor Request Notification) : Prop where
  consecutive : Consecutive o.first o.last (window s.published)
  subset : ∀ entry ∈ window s.published, entry ∈ journal
  tail : ∀ cursor ∈ s.lastCursor, cursor = tailCursor o (window s.published)
  head : s.firstCursor = (window s.published).head?.map o.first
  resume : s.resumeCursor = s.lastCursor
  unopened : s.lastCursor = none → s.published = []

variable (o) in
/-- What a segment may have done to the stream: the window is still a slice of the journal, the
last cursor has not moved back, and the generation and the notifications are what is said. -/
structure Advances (journal : List Entry) (generation : ℕ)
    (s t : Stream Page Entry Cursor Request Notification) : Prop where
  windowed : Windowed o journal t
  grows : ∀ cursor ∈ s.lastCursor, ∃ next ∈ t.lastCursor, cursor ≤ next
  generation : t.generation = generation
  started : t.started = s.started
  opened : t.opened = s.opened

variable {journal : List Entry} {s t u : Stream Page Entry Cursor Request Notification}

theorem Advances.refl (h : Windowed o journal s) : Advances o journal s.generation s s :=
  ⟨h, fun cursor hcursor => ⟨cursor, hcursor, le_refl cursor⟩, rfl, rfl, rfl⟩

omit [LinearOrder Cursor] in
/-- A check keeps the state, so a segment goes on where it returns. -/
theorem leaves_check {α β : Type} {x : Except Failure α}
    {f : α → M Page Entry Cursor Request Notification β}
    {post : β → Stream Page Entry Cursor Request Notification → Prop}
    {err : Failure → Stream Page Entry Cursor Request Notification → Prop}
    (hok : ∀ a, x = .ok a → Leaves post err (f a s)) (herr : ∀ error, err error s) :
    Leaves post err ((check x >>= f) s) := by
  cases hx : x with
  | ok a => exact hok a hx
  | error error => exact herr error

variable (o) in
/-- The stream after its window was replaced. -/
def replaced (page : Page) (entries : List Entry) (cursor : Cursor)
    (s : Stream Page Entry Cursor Request Notification) :
    Stream Page Entry Cursor Request Notification :=
  { s with
    firstCursor := entries.head?.map o.first
    lastCursor := some cursor
    resumeCursor := some cursor
    published := s.published ++ [(s.generation, .replace page entries (o.hasMore page))] }

variable (page : Page)

theorem replaceWindow_eq (entries : List Entry) (cursor : Cursor)
    (s : Stream Page Entry Cursor Request Notification) :
    replaceWindow o page entries cursor s = .ok () (replaced o page entries cursor s) := rfl

theorem replaced_advances {entries : List Entry} {cursor : Cursor}
    (hentries : Consecutive o.first o.last entries) (hsub : ∀ entry ∈ entries, entry ∈ journal)
    (htail : cursor = tailCursor o entries) (hgrows : ∀ last ∈ s.lastCursor, last ≤ cursor) :
    Advances o journal s.generation s (replaced o page entries cursor s) where
  windowed := by
    constructor <;> simp only [replaced, window_concat, applyChange]
    · exact hentries
    · exact hsub
    · intro last hlast
      cases hlast
      exact htail
    · simp
  grows last hlast := ⟨cursor, rfl, hgrows last hlast⟩
  generation := rfl
  started := rfl
  opened := rfl

theorem notificationsIn_replaced (page : Page) (entries : List Entry) (cursor : Cursor)
    (s : Stream Page Entry Cursor Request Notification) :
    notificationsIn generation (replaced o page entries cursor s).published
      = notificationsIn generation s.published := by
  simp [replaced, notificationsIn]

variable (o) in
/-- What a segment leaves where it throws: no notification was published. -/
def Fails (journal : List Entry) (s t : Stream Page Entry Cursor Request Notification) : Prop :=
  (∃ generation, Advances o journal generation s t) ∧
    ∀ g, notificationsIn g t.published = notificationsIn g s.published

section

variable (h : Windowed o journal s)
include h

theorem Fails.refl : Fails o journal s s :=
  ⟨⟨s.generation, Advances.refl h⟩, fun _ => rfl⟩

theorem opening_leaves {item : Item Page Entry Cursor Notification} {resumed : Bool} (hresumed : resumed = true ∨ s.lastCursor = none) :
    Leaves
      (fun opening t => t = { s with generation := item.generation } ∧
        item.value = .opened opening.1 opening.2 ∧ ∀ last ∈ s.lastCursor, last ≤ opening.1)
      (fun _ t => Fails o journal s t) (opening o item resumed s) := by
  unfold opening
  cases hvalue : item.value with
  | opened cursor page =>
    simp only [leaves_get_bind]
    by_cases hbehind : resumed = true ∧ ∃ last ∈ s.lastCursor, cursor < last
    · rw [if_pos hbehind]
      exact Fails.refl h
    · rw [if_neg hbehind]
      refine ⟨rfl, rfl, ?_⟩
      intro last hlast
      cases hresumed with
      | inl hresumed =>
        by_contra hlt
        exact hbehind ⟨hresumed, last, hlast, not_le.mp hlt⟩
      | inr hnone =>
        rw [hnone] at hlast
        cases hlast
  | entry entry => exact Fails.refl h
  | notification notification => exact Fails.refl h

/-- An opening replaces the window, and refuses a cursor behind the last one. -/
theorem replaceGeneration_leaves {item : Item Page Entry Cursor Notification} {resumed : Bool} (hresumed : resumed = true ∨ s.lastCursor = none)
    (hpage : ∀ cursor page, item.value = .opened cursor page →
      ∀ entry ∈ o.entries page, entry ∈ journal) :
    Leaves
      (fun _ t => Advances o journal item.generation s t ∧
        (∃ cursor page, item.value = .opened cursor page ∧ t.lastCursor = some cursor) ∧
        ∀ g, notificationsIn g t.published = notificationsIn g s.published)
      (fun _ t => Fails o journal s t) (replaceGeneration o item resumed s) := by
  unfold replaceGeneration
  refine leaves_bind (opening_leaves h hresumed) ?_
  intro opening t ⟨ht, hvalue, hcursor⟩
  have hopened : Windowed o journal t := by
    subst ht
    exact ⟨h.consecutive, h.subset, h.tail, h.head, h.resume, h.unopened⟩
  have hfails : Fails o journal s t := by
    subst ht
    exact ⟨⟨item.generation, hopened, fun last hlast => ⟨last, hlast, le_refl last⟩, rfl, rfl, rfl⟩,
      fun _ => rfl⟩
  unfold replaceFromOpening
  refine leaves_check ?_ fun _ => hfails
  intro _ hthrough
  refine leaves_check ?_ fun _ => hfails
  intro _ hassert
  rw [replaceWindow_eq, leaves_ok]
  have hadvances := replaced_advances (s := t) opening.2 (assertPage_ok hassert)
    (hpage _ _ hvalue) (assertPageThrough_ok hthrough).symm (by rw [ht]; exact hcursor)
  subst ht
  refine ⟨⟨hadvances.windowed, hadvances.grows, rfl, rfl, rfl⟩, ⟨_, _, hvalue, rfl⟩, ?_⟩
  intro g
  exact notificationsIn_replaced g opening.2 _ opening.1 _

theorem publishNotification_advances (hopened : s.lastCursor ≠ none)
    (notification : Notification) :
    Advances o journal s.generation s { s with
      published := s.published ++ [(s.generation, .notification notification)] } where
  windowed := by
    constructor <;> simp only [window_concat, applyChange]
    · exact h.consecutive
    · exact h.subset
    · exact h.tail
    · exact h.head
    · exact h.resume
    · exact fun hnone => absurd hnone hopened
  grows last hlast := ⟨last, hlast, le_refl last⟩
  generation := rfl
  started := rfl
  opened := rfl

/-- A live entry that was not behind the window is appended, or needs a page. -/
theorem acceptEntry_leaves {entry : Entry} {generation : ℕ} (hentry : entry ∈ journal)
    (hopened : s.lastCursor ≠ none) :
    Leaves
      (fun repair t => Advances o journal s.generation s t ∧
        (∀ g, notificationsIn g t.published = notificationsIn g s.published) ∧
        match repair with
        | none => ∃ cursor ∈ t.lastCursor, o.last entry ≤ cursor
        | some repair => t = s ∧ repair.generation = generation ∧ repair.queued = [entry] ∧
            repair.notifications = [] ∧ ∀ cursor ∈ s.lastCursor, cursor ≤ repair.requiredCursor)
      (fun _ t => Fails o journal s t) (acceptEntry o entry generation s) := by
  obtain ⟨last, hlast⟩ := Option.ne_none_iff_exists'.mp hopened
  unfold acceptEntry
  refine leaves_check ?_ fun _ => Fails.refl h
  intro range hrange
  have ⟨hsame, hordered⟩ := entryRange_ok hrange
  subst hsame
  rw [leaves_get_bind]
  simp only [hlast, Option.getD_some]
  by_cases hbehind : o.last entry ≤ last
  · rw [if_pos hbehind]
    exact ⟨Advances.refl h, fun _ => rfl, last, hlast, hbehind⟩
  · rw [if_neg hbehind]
    by_cases hover : o.first entry ≤ last
    · rw [if_pos hover]
      exact Fails.refl h
    · rw [if_neg hover]
      by_cases hfollows : o.follows last (o.first entry) = true
      · rw [if_pos hfollows]
        have hcov : last ⋖ o.first entry := (o.follows_iff _ _).mp hfollows
        have htail : last = tailCursor o (window s.published) := h.tail last hlast
        refine ⟨⟨?_, ?_, rfl, rfl, rfl⟩, ?_, o.last entry, rfl, le_refl _⟩
        · constructor <;> simp only [window_concat, applyChange]
          · refine h.consecutive.append (Consecutive.singleton hordered) ?_
            intro x hx y hy
            cases hy
            have hx' : tailCursor o (window s.published) = o.last x := by
              simp only [tailCursor, Option.mem_def.mp hx]
            rw [← hx', ← htail]
            exact hcov
          · intro e he
            cases List.mem_append.mp he with
            | inl hold => exact h.subset e hold
            | inr hnew => exact List.mem_singleton.mp hnew ▸ hentry
          · intro cursor hcursor
            cases hcursor
            exact (reach_concat o.emptyCursor (window s.published) entry).symm
          · rw [h.head]
            cases window s.published <;> rfl
          · simp
        · intro cursor hcursor
          cases hlast.symm.trans hcursor
          exact ⟨o.last entry, rfl, (not_le.mp hbehind).le⟩
        · intro g
          simp [notificationsIn]
      · rw [if_neg hfollows]
        refine ⟨Advances.refl h, fun _ => rfl, rfl, rfl, rfl, rfl, ?_⟩
        intro cursor hcursor
        cases hcursor
        exact (not_le.mp hbehind).le

end

omit [LinearOrder Cursor] in
theorem publishAll_eq (notifications : List Notification)
    (s : Stream Page Entry Cursor Request Notification) :
    notifications.forM publishNotification s = .ok () { s with
      published := s.published
        ++ notifications.map fun notification => (s.generation, .notification notification) } := by
  induction notifications generalizing s with
  | nil => simp only [List.map_nil, List.append_nil]; rfl
  | cons notification rest ih =>
    have hrest := ih { s with
      published := s.published ++ [(s.generation, .notification notification)] }
    rw [List.append_assoc] at hrest
    exact hrest

theorem window_notifications (published : List (ℕ × Change Page Entry Notification))
    (generation : ℕ) (notifications : List Notification) :
    window (published ++ notifications.map fun notification =>
      (generation, .notification notification)) = window published := by
  induction notifications generalizing published with
  | nil => simp
  | cons notification rest ih =>
    rw [List.map_cons, List.append_cons, ih, window_concat]
    rfl

theorem notificationsIn_map (g generation : ℕ) (notifications : List Notification) :
    notificationsIn g (notifications.map fun notification =>
        (generation, (.notification notification : Change Page Entry Notification)))
      = if g = generation then notifications else [] := by
  induction notifications with
  | nil => simp [notificationsIn]
  | cons notification rest ih =>
    rw [List.map_cons, ← List.singleton_append, notificationsIn_append,
      notificationsIn_singleton, ih]
    by_cases hg : g = generation
    · simp [hg]
    · simp [hg, Ne.symm hg]

variable (o) in
/-- The stream after a repair is committed. -/
def committed (page : Page) (entries : List Entry) (notifications : List Notification)
    (s : Stream Page Entry Cursor Request Notification) :
    Stream Page Entry Cursor Request Notification :=
  { replaced o page entries (tailCursor o entries) s with
    published := (replaced o page entries (tailCursor o entries) s).published
      ++ notifications.map fun notification => (s.generation, .notification notification) }

theorem commitReplacement_eq (entries : List Entry) (notifications : List Notification)
    (s : Stream Page Entry Cursor Request Notification) :
    commitReplacement o page entries notifications s
      = .ok () (committed o page entries notifications s) :=
  publishAll_eq notifications (replaced o page entries (tailCursor o entries) s)

/-- The page commits a repair once it reaches every queued entry, or another page is read. -/
theorem afterPage_leaves {repair : Repair Entry Cursor Request Notification} {page : Page}
    (h : Windowed o journal s) (hpage : ∀ entry ∈ o.entries page, entry ∈ journal)
    (hqueued : ∀ entry ∈ repair.queued, entry ∈ journal)
    (hrequired : ∀ cursor ∈ s.lastCursor, cursor ≤ repair.requiredCursor) :
    Leaves
      (fun again t => Advances o journal s.generation s t ∧
        match again with
        | none => (∀ g, notificationsIn g t.published = notificationsIn g s.published
              ++ if g = s.generation then repair.notifications else []) ∧
            ∃ cursor ∈ t.lastCursor, ∀ entry ∈ repair.queued, o.last entry ≤ cursor
        | some again => t = s ∧ again.generation = repair.generation ∧
            again.queued = repair.queued ∧ again.notifications = repair.notifications ∧
            again.requiredCursor = repair.requiredCursor)
      (fun _ t => Fails o journal s t) (afterPage o repair page s) := by
  unfold afterPage
  refine leaves_check ?_ fun _ => Fails.refl h
  intro _ _
  refine leaves_check ?_ fun _ => Fails.refl h
  intro merged hmerged
  have ⟨hrequiredMax, hqueuedMax⟩ := le_maxCursor (o := o) repair.requiredCursor repair.queued
  cases hreaches : merged.filter fun entries =>
      decide (maxCursor o repair.requiredCursor repair.queued ≤ tailCursor o entries) with
  | none =>
    simp only []
    cases repair.second with
    | true => exact Fails.refl h
    | false => exact ⟨Advances.refl h, rfl, rfl, rfl, rfl, rfl⟩
  | some entries =>
    rw [Option.filter_eq_some_iff] at hreaches
    have ⟨hsome, hreach⟩ := hreaches
    rw [decide_eq_true_eq] at hreach
    subst hsome
    have ⟨hentries, hmem⟩ := mergeReplacement_ok hmerged
    have hsub : ∀ entry ∈ entries, entry ∈ journal := by
      intro entry hentry
      cases hmem entry hentry with
      | inl hin => exact hpage entry hin
      | inr hin => exact hqueued entry hin
    have hadvances := replaced_advances (s := s) page hentries hsub rfl
      fun last hlast => (hrequired last hlast).trans (hrequiredMax.trans hreach)
    have hrun : commitReplacement o page entries repair.notifications s = _ :=
      commitReplacement_eq page entries repair.notifications s
    change Leaves _ _ (EStateM.bind _ _ s)
    simp only [EStateM.bind, hrun]
    refine ⟨⟨?_, hadvances.grows, rfl, rfl, rfl⟩, ?_, tailCursor o entries, rfl, ?_⟩
    · have hw := hadvances.windowed
      constructor <;> simp only [committed, window_notifications]
      · exact hw.consecutive
      · exact hw.subset
      · exact hw.tail
      · exact hw.head
      · exact hw.resume
      · intro hnone
        cases hnone
    · intro g
      rw [committed, notificationsIn_append, notificationsIn_map, notificationsIn_replaced]
    · exact fun entry hentry => (hqueuedMax entry hentry).trans hreach

variable (o) in
/-- The stream after older entries were put before its window. -/
def prepended (page : Page) (accepted : List Entry) (hasMore : Bool)
    (s : Stream Page Entry Cursor Request Notification) :
    Stream Page Entry Cursor Request Notification :=
  { s with
    firstCursor := (accepted.head?.map o.first).or s.firstCursor
    published := s.published ++ [(s.generation, .prepend page accepted hasMore)] }

theorem prepended_advances {page : Page} {accepted : List Entry} {hasMore : Bool}
    (h : Windowed o journal s) (hopened : s.lastCursor ≠ none)
    (haccepted : Consecutive o.first o.last accepted) (hsub : ∀ entry ∈ accepted, entry ∈ journal)
    (hjoin : ∀ tail ∈ accepted.getLast?, ∃ head ∈ (window s.published).head?,
      o.last tail ⋖ o.first head) :
    Advances o journal s.generation s (prepended o page accepted hasMore s) where
  windowed := by
    constructor <;> simp only [prepended, window_concat, applyChange]
    · refine haccepted.append h.consecutive ?_
      intro x hx y hy
      obtain ⟨head, hhead, hcov⟩ := hjoin x hx
      cases (Option.mem_def.mp hhead).symm.trans hy
      exact hcov
    · intro entry hentry
      cases List.mem_append.mp hentry with
      | inl hnew => exact hsub entry hnew
      | inr hold => exact h.subset entry hold
    · intro cursor hcursor
      rw [h.tail cursor hcursor]
      cases hlast : accepted.getLast? with
      | none => rw [List.getLast?_eq_none_iff.mp hlast, List.nil_append]
      | some tail =>
        obtain ⟨head, hhead, _⟩ := hjoin tail hlast
        have hne : window s.published ≠ [] := by
          intro hnil
          rw [hnil] at hhead
          cases hhead
        exact (reach_append_of_ne_nil hne o.emptyCursor).symm
    · rw [h.head, List.head?_append]
      cases accepted.head? <;> rfl
    · exact h.resume
    · exact fun hnone => absurd hnone hopened
  grows last hlast := ⟨last, hlast, le_refl last⟩
  generation := rfl
  started := rfl
  opened := rfl

theorem notificationsIn_prepended (page : Page) (accepted : List Entry) (hasMore : Bool)
    (s : Stream Page Entry Cursor Request Notification) :
    notificationsIn generation (prepended o page accepted hasMore s).published
      = notificationsIn generation s.published := by
  simp [prepended, notificationsIn]

/-- An older page is put before the window, or leaves it as it is. -/
theorem prependPage_leaves (aborted : Bool) (h : Windowed o journal s)
    (hopened : s.lastCursor ≠ none) (hpage : ∀ entry ∈ o.entries page, entry ∈ journal)
    (habove : ∀ entry ∈ journal, o.emptyCursor < o.first entry)
    (hbefore : ∀ entry ∈ o.entries page, ∃ cursor ∈ s.lastCursor, o.last entry ≤ cursor) :
    Leaves
      (fun _ t => Advances o journal s.generation s t ∧ t.lastCursor = s.lastCursor ∧
        ∀ g, notificationsIn g t.published = notificationsIn g s.published)
      (fun _ t => Advances o journal s.generation s t ∧ t.lastCursor = s.lastCursor ∧
        ∀ g, notificationsIn g t.published = notificationsIn g s.published)
      (prependPage o page aborted s) := by
  have hnop : Advances o journal s.generation s s ∧ s.lastCursor = s.lastCursor ∧
      ∀ g, notificationsIn g s.published = notificationsIn g s.published :=
    ⟨Advances.refl h, rfl, fun _ => rfl⟩
  have hprepend : ∀ accepted hasMore, Consecutive o.first o.last accepted →
      (∀ entry ∈ accepted, entry ∈ o.entries page) →
      (∀ tail ∈ accepted.getLast?, ∃ head ∈ (window s.published).head?,
        o.last tail ⋖ o.first head) →
      Advances o journal s.generation s (prepended o page accepted hasMore s) ∧
        (prepended o page accepted hasMore s).lastCursor = s.lastCursor ∧
        ∀ g, notificationsIn g (prepended o page accepted hasMore s).published
          = notificationsIn g s.published := by
    intro accepted hasMore haccepted hsub hjoin
    exact ⟨prepended_advances h hopened haccepted (fun e he => hpage e (hsub e he)) hjoin, rfl,
      fun g => notificationsIn_prepended g page accepted hasMore s⟩
  unfold prependPage
  cases aborted with
  | true => exact hnop
  | false =>
    simp only [Bool.false_eq_true, ↓reduceIte]
    refine leaves_check ?_ fun _ => hnop
    intro _ hassert
    rw [leaves_get_bind]
    have hentries := assertPage_ok hassert
    cases hfirst : s.firstCursor with
    | none =>
      -- nothing in the journal is at or before the empty cursor
      have hempty : window s.published = [] := by
        rw [h.head, Option.map_eq_none_iff, List.head?_eq_none_iff] at hfirst
        exact hfirst
      have hnil : o.entries page = [] := by
        refine List.eq_nil_iff_forall_not_mem.mpr ?_
        intro entry hentry
        obtain ⟨cursor, hcursor, hle⟩ := hbefore entry hentry
        rw [h.tail cursor hcursor, hempty] at hle
        have hlow := (hentries.ordered entry hentry).trans hle
        exact absurd (habove entry (hpage entry hentry)) (not_lt.mpr hlow)
      simp only [hnil]
      exact hprepend [] (o.hasMore page) Consecutive.nil (by simp) (by simp)
    | some before =>
      have hhead : ∃ head ∈ (window s.published).head?, o.first head = before := by
        rw [h.head] at hfirst
        obtain ⟨head, hhead, hsame⟩ := Option.map_eq_some_iff.mp hfirst
        exact ⟨head, hhead, hsame⟩
      have haccepted : Consecutive o.first o.last
          ((o.entries page).filter fun entry => decide (o.first entry < before)) :=
        hentries.of_isInfix (hentries.filter_lt_isPrefix before).isInfix
      simp only []
      cases hlast : ((o.entries page).filter fun entry =>
          decide (o.first entry < before)).getLast? with
      | none =>
        simp only [List.getLast?_eq_none_iff.mp hlast]
        exact hprepend [] (o.hasMore page) Consecutive.nil (by simp) (by simp)
      | some tail =>
        by_cases hfollows : o.follows (o.last tail) before = true
        · simp only [hfollows, ↓reduceIte]
          refine hprepend _ (o.hasMore page) haccepted
            (fun entry hentry => List.mem_of_mem_filter hentry) ?_
          intro tail' htail'
          cases hlast.symm.trans htail'
          obtain ⟨head, hmem, hsame⟩ := hhead
          exact ⟨head, hmem, hsame ▸ (o.follows_iff _ _).mp hfollows⟩
        · simp only [hfollows]
          exact hprepend [] false Consecutive.nil (by simp) (by simp)

end Segments

end JournalStream

end TianmaCoder
