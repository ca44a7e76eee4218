import TianmaCoder.Gateway.JournalTracks

/-!
# A server that follows the protocol

A conforming server opens each generation with a page that ends at its cursor and then sends
entries of the journal in order, leaving out at most one run of them. A page read returns the
slice that was asked for. Neither the stream nor the iterator ends.

The pages and entries of such a server pass every check of the client.

## Main definitions

* `JournalStream.Conforms` — what a conforming server and its client may do.
* `JournalStream.Unbroken` — a step reports nothing and hides no history.
* `JournalStream.Absorbed` — the page that completes is still wanted.

## Main results

* `JournalStream.replaceGeneration_opened`, `JournalStream.acceptEntry_next`,
  `JournalStream.afterPage_commits`, `JournalStream.prependPage_fits`.
-/

namespace TianmaCoder

open Checked Effect Transition

namespace JournalStream

variable {Page Entry Cursor Request Notification : Type} [LinearOrder Cursor]

/-- What the server has sent in its current generation: where it opened, the last cursor of the
latest entry, and whether it has left out a run of entries. -/
structure Feed (Cursor : Type) where
  generation : ℕ
  cursor : Cursor
  sent : Option Cursor
  skipped : Bool
  deriving DecidableEq, Repr

/-- The client and the server. -/
structure World (Page Entry Cursor Request Notification : Type) where
  state : State Page Entry Cursor Request Notification
  feed : Feed Cursor
  deriving DecidableEq, Repr

section Definitions

variable (o : Options Page Entry Cursor Request)

/-- The entry does not continue what was sent before it. -/
def Feed.skips (feed : Feed Cursor) (entry : Entry) : Bool :=
  match feed.sent with
  | none => decide (feed.cursor < o.first entry) && !o.follows feed.cursor (o.first entry)
  | some sent => !o.follows sent (o.first entry)

def Feed.send (feed : Feed Cursor) (item : Item Page Entry Cursor Notification) : Feed Cursor :=
  match item.value with
  | .opened cursor _ => ⟨item.generation, cursor, none, false⟩
  | .entry entry =>
    { feed with sent := some (o.last entry), skipped := feed.skipped || feed.skips o entry }
  | .notification _ => feed

namespace World

def init : World Page Entry Cursor Request Notification :=
  ⟨JournalStream.init, ⟨0, o.emptyCursor, none, false⟩⟩

def step (w : World Page Entry Cursor Request Notification)
    (action : Action Page Entry Cursor Request Notification) :
    Option (World Page Entry Cursor Request Notification) :=
  (JournalStream.step o w.state action).map fun state =>
    match action with
    | .next (.item item) _ _ => ⟨state, w.feed.send o item⟩
    | _ => ⟨state, w.feed⟩

end World

/-- The entries that a read asks for: those at or before one cursor that begin before another. -/
def asked (journal : List Entry) (through : Cursor) (before : Option Cursor) : List Entry :=
  journal.filter fun entry =>
    decide (o.last entry ≤ through) && before.all fun cursor => decide (o.first entry < cursor)

/-- The page holds the last entries of those asked for, one at least where there is one, and
says whether there are older ones. -/
structure Slice (journal : List Entry) (through : Cursor) (before : Option Cursor) (page : Page) :
    Prop where
  isSuffix : o.entries page <:+ asked o journal through before
  nonempty : o.entries page = [] → asked o journal through before = []
  hasMore : o.hasMore page = false ↔ o.entries page = asked o journal through before

variable (before : Request → Option Cursor)

/-- A conforming server and its client before `dispose`. A history request asks for entries
before a cursor, a repair for the tail. -/
def Conforms (w : World Page Entry Cursor Request Notification) :
    Action Page Entry Cursor Request Notification → Prop
  | .append entry =>
    tailCursor o w.state.journal ⋖ o.first entry ∧ o.first entry ≤ o.last entry
  | .next (.item item) _ _ =>
    match item.value with
    | .opened cursor page =>
      w.feed.generation < item.generation ∧
        Slice o w.state.journal cursor none page ∧
        tailCursor o (o.entries page) = cursor ∧
        ∀ last ∈ w.state.stream.lastCursor, last ≤ cursor
    | .entry entry =>
      item.generation = w.feed.generation ∧ 0 < item.generation ∧
        entry ∈ w.state.journal ∧
        (∀ sent ∈ w.feed.sent, sent < o.first entry) ∧
        (w.feed.skipped = true → w.feed.skips o entry = false)
    | .notification _ => item.generation = w.feed.generation ∧ 0 < item.generation
  | .next _ _ _ => False
  | .page (.ok page) _ streamAborted =>
    streamAborted = false ∧
      ∀ repair, w.state.consumer = .reading repair →
        Slice o w.state.journal repair.through none page
  | .page (.error _) aborted streamAborted => aborted = true ∧ streamAborted = false
  | .prepended index (.ok page) aborted =>
    aborted = false ∧
      ∀ call ∈ w.state.prepends[index]?,
        Slice o w.state.journal call.2 (before call.1) page
  | .dispose => False
  | _ => True

/-- The change says that nothing is older than the window. -/
def Change.endsHistory : Change Page Entry Notification → Bool
  | .replace _ _ hasMore | .prepend _ _ hasMore => !hasMore
  | _ => false

/-- The step reports no failure, rejects no history page as a violation, and publishes the end
of the history only where nothing in the journal is older than the window. -/
structure Unbroken (w : World Page Entry Cursor Request Notification)
    (action : Action Page Entry Cursor Request Notification) : Prop where
  unreported : ∀ t, World.step o w action = some t →
    t.state.stream.failed = w.state.stream.failed
  accepted : ∀ index page aborted message stream, action = .prepended index (.ok page) aborted →
    w.state.prepends[index]? ≠ none →
      prependPage o page aborted w.state.stream ≠ .error (.violation message) stream
  complete : ∀ t, World.step o w action = some t →
    ∀ change ∈ t.state.stream.published.drop w.state.stream.published.length,
      change.2.endsHistory = true →
        ∀ head ∈ (window t.state.stream.published).head?, ∀ entry ∈ t.state.journal,
          o.first head ≤ o.first entry

/-- The page that completes is still wanted: its generation was not aborted, and a history page
was asked for over everything that is older than the window. -/
def Absorbed (w : World Page Entry Cursor Request Notification) :
    Action Page Entry Cursor Request Notification → Prop
  | .page (.ok _) aborted _ =>
    ∀ repair, w.state.consumer = .reading repair → aborted = false
  | .prepended index (.ok _) _ =>
    ∀ call ∈ w.state.prepends[index]?, ∀ head ∈ w.state.stream.firstCursor,
      ∀ entry ∈ w.state.journal, o.first entry < head →
        o.last entry ≤ call.2 ∧ ∀ cursor ∈ before call.1, o.first entry < cursor
  | _ => True

end Definitions

variable {o : Options Page Entry Cursor Request} {before : Request → Option Cursor}
  {journal : List Entry}

/-! ### What a read returns -/

variable {entry : Entry} {bound : Option Cursor}

theorem mem_asked {through : Cursor} :
    entry ∈ asked o journal through bound ↔
      entry ∈ journal ∧ o.last entry ≤ through ∧ ∀ cursor ∈ bound, o.first entry < cursor := by
  cases bound <;> simp [asked]

/-- What is asked for is a first part of the journal. -/
theorem asked_isPrefix (h : Consecutive o.first o.last journal) (through : Cursor)
    (bound : Option Cursor) : asked o journal through bound <+: journal := by
  refine h.filter_isPrefix ?_
  intro x hx y hy hxy hkept
  have hafter := (mem_asked).mp (List.mem_filter.mpr ⟨hy, hkept⟩)
  have hordered := h.ordered x hx
  refine (List.mem_filter.mp (mem_asked.mpr ⟨hx, ?_, ?_⟩)).2
  · exact hxy.le.trans ((h.ordered y hy).trans hafter.2.1)
  · exact fun cursor hcursor => (hordered.trans_lt hxy).trans (hafter.2.2 cursor hcursor)

variable {page : Page}

theorem Slice.isInfix {through : Cursor} (hslice : Slice o journal through bound page)
    (h : Consecutive o.first o.last journal) : o.entries page <:+: journal :=
  hslice.isSuffix.isInfix.trans (asked_isPrefix h through bound).isInfix

/-- A page without older ones begins where the journal does. -/
theorem Slice.oldest {through : Cursor} (hslice : Slice o journal through bound page)
    (h : Consecutive o.first o.last journal) (hmore : o.hasMore page = false) {head : Entry}
    (hhead : head ∈ (o.entries page).head?) (hentry : entry ∈ journal) :
    o.first head ≤ o.first entry := by
  refine h.head_le ?_ hentry
  rw [hslice.hasMore.mp hmore] at hhead
  obtain ⟨rest, hrest⟩ := asked_isPrefix h through bound
  rw [← hrest, List.head?_append, Option.mem_def.mp hhead]
  rfl

/-- A read through an entry of the journal ends at it. -/
theorem Slice.tail (hslice : Slice o journal (o.last entry) none page)
    (h : Consecutive o.first o.last journal) (hentry : entry ∈ journal) :
    tailCursor o (o.entries page) = o.last entry := by
  have hasked : entry ∈ asked o journal (o.last entry) none :=
    mem_asked.mpr ⟨hentry, le_refl _, fun _ h => nomatch h⟩
  have hne : o.entries page ≠ [] := by
    intro hnil
    rw [hslice.nonempty hnil] at hasked
    cases hasked
  obtain ⟨older, holder⟩ := hslice.isSuffix
  have hcon := h.of_isInfix (asked_isPrefix h (o.last entry) none).isInfix
  have hreach : reach o.last o.emptyCursor (asked o journal (o.last entry) none)
      = tailCursor o (o.entries page) := by
    rw [← holder]
    exact reach_append_of_ne_nil hne o.emptyCursor
  refine le_antisymm ?_ (hreach ▸ hcon.le_reach o.emptyCursor hasked)
  have hlast : (o.entries page).getLast hne ∈ asked o journal (o.last entry) none :=
    hslice.isSuffix.subset (List.getLast_mem hne)
  rw [tailCursor, List.getLast?_eq_some_getLast hne]
  exact (mem_asked.mp hlast).2.1

/-! ### The checks pass -/

theorem entryRange_of_le (h : o.first entry ≤ o.last entry) :
    entryRange o entry = .ok (o.first entry, o.last entry) := by
  rw [entryRange, if_neg (not_lt.mpr h)]
  rfl

variable {entries : List Entry}

theorem assertPageAfter_of_consecutive (h : Consecutive o.first o.last (entry :: entries)) :
    assertPageAfter o (o.last entry) entries = .ok () := by
  induction entries generalizing entry with
  | nil => rfl
  | cons next rest ih =>
    have hfollows : o.follows (o.last entry) (o.first next) = true :=
      (o.follows_iff _ _).mpr (List.isChain_cons_cons.mp h.chained).1
    rw [assertPageAfter, entryRange_of_le (h.ordered next (by simp)), ok_bind, if_pos hfollows]
    exact ih h.tail

theorem assertPage_of_consecutive (h : Consecutive o.first o.last entries) :
    assertPage o entries = .ok () := by
  cases entries with
  | nil => rfl
  | cons entry rest =>
    rw [assertPage, entryRange_of_le (h.ordered entry (by simp)), ok_bind]
    exact assertPageAfter_of_consecutive h

theorem forM_entryRange_of_consecutive {queued : List Entry}
    (h : Consecutive o.first o.last queued) :
    (queued.forM fun entry => do let _ ← entryRange o entry)
      = (.ok () : Except Failure Unit) := by
  induction queued with
  | nil => rfl
  | cons entry rest ih =>
    rw [List.forM_eq_forM, List.forM_cons, entryRange_of_le (h.ordered entry (by simp))]
    exact ih h.tail

variable {rest : List Entry}

theorem mergeSorted_of_consecutive (h : Consecutive o.first o.last (entry :: rest)) :
    mergeSorted o entries (o.last entry) rest = .ok (some (entries ++ rest)) := by
  induction rest generalizing entries entry with
  | nil => rw [List.append_nil]; rfl
  | cons next rest ih =>
    have hcov : o.last entry ⋖ o.first next := (List.isChain_cons_cons.mp h.chained).1
    have hnext : o.first next ≤ o.last next := h.ordered next (by simp)
    rw [mergeSorted, if_neg (not_le.mpr (hcov.lt.trans_le hnext)), if_neg (not_le.mpr hcov.lt),
      if_pos ((o.follows_iff _ _).mpr hcov), ih h.tail, List.append_assoc]
    rfl

theorem mergeReplacement_of_consecutive (hpage : Consecutive o.first o.last (o.entries page))
    (htail : tailCursor o (o.entries page) = o.last entry)
    (hqueued : Consecutive o.first o.last (entry :: rest)) :
    mergeReplacement o page (entry :: rest) = .ok (some (o.entries page ++ rest)) := by
  have hsorted : (entry :: rest).mergeSort (fun left right => decide (o.first left ≤ o.first right))
      = entry :: rest := by
    refine List.mergeSort_of_pairwise (hqueued.pairwise.imp_of_mem ?_)
    intro a b ha _ hab
    rw [decide_eq_true_eq]
    exact (hqueued.ordered a ha).trans hab.le
  rw [mergeReplacement]
  simp only [assertPage_of_consecutive hpage, ok_bind, forM_entryRange_of_consecutive hqueued,
    hsorted, htail]
  rw [mergeSorted, if_pos (le_refl _)]
  exact mergeSorted_of_consecutive hqueued

theorem maxCursor_le {cursor bound : Cursor} (hcursor : cursor ≤ bound)
    (hentries : ∀ entry ∈ entries, o.last entry ≤ bound) : maxCursor o cursor entries ≤ bound := by
  induction entries generalizing cursor with
  | nil => exact hcursor
  | cons entry rest ih =>
    refine ih ?_ fun other hother => hentries other (List.mem_cons_of_mem entry hother)
    change (if cursor < o.last entry then o.last entry else cursor) ≤ bound
    by_cases hlt : cursor < o.last entry
    · rw [if_pos hlt]
      exact hentries entry (by simp)
    · rw [if_neg hlt]
      exact hcursor

/-! ### The segments succeed -/

section Segments

variable {s : Stream Page Entry Cursor Request Notification}

omit [LinearOrder Cursor] in
theorem check_ok {α β : Type} (a : α) (f : α → M Page Entry Cursor Request Notification β) :
    (check (.ok a) >>= f) s = f a s := rfl

omit [LinearOrder Cursor] in
theorem get_bind {β : Type} (f : Stream Page Entry Cursor Request Notification →
    M Page Entry Cursor Request Notification β) : (get >>= f) s = f s s := rfl

variable {generation : ℕ}

theorem replaceGeneration_opened {cursor : Cursor} {resumed : Bool}
    (hpage : Consecutive o.first o.last (o.entries page))
    (htail : tailCursor o (o.entries page) = cursor) (hlast : ∀ last ∈ s.lastCursor, last ≤ cursor) :
    replaceGeneration o ⟨generation, .opened cursor page⟩ resumed s
      = .ok () (replaced o page (o.entries page) cursor { s with generation := generation }) := by
  have hbehind : ¬(resumed = true ∧ ∃ last ∈ s.lastCursor, cursor < last) := by
    intro h
    obtain ⟨last, hmem, hlt⟩ := h.2
    exact absurd (hlast last hmem) (not_le.mpr hlt)
  have hopening : opening o ⟨generation, .opened cursor page⟩ resumed s
      = .ok (cursor, page) { s with generation := generation } := by
    change (if _ then _ else _ : M Page Entry Cursor Request Notification _) s = _
    rw [if_neg hbehind]
    rfl
  have hthrough : assertPageThrough o page cursor = .ok () := by
    rw [assertPageThrough, if_neg (not_not.mpr htail)]
    rfl
  change EStateM.bind _ _ s = _
  simp only [EStateM.bind, hopening, replaceFromOpening, hthrough, check_ok,
    assertPage_of_consecutive hpage]
  rfl

/-- The stream after a live entry was appended. -/
def appended (entry : Entry) (s : Stream Page Entry Cursor Request Notification) :
    Stream Page Entry Cursor Request Notification :=
  { s with
    firstCursor := some (s.firstCursor.getD (o.first entry))
    lastCursor := some (o.last entry)
    resumeCursor := some (o.last entry)
    published := s.published ++ [(s.generation, .append entry)] }

theorem acceptEntry_behind {last : Cursor} (hordered : o.first entry ≤ o.last entry)
    (hlast : s.lastCursor = some last) (hle : o.last entry ≤ last) :
    acceptEntry o entry generation s = .ok none s := by
  rw [acceptEntry, entryRange_of_le hordered, check_ok]
  rw [get_bind]
  simp only [hlast, Option.getD_some, if_pos hle]
  rfl

theorem acceptEntry_next {last : Cursor} (hordered : o.first entry ≤ o.last entry)
    (hlast : s.lastCursor = some last) (hcov : last ⋖ o.first entry) :
    acceptEntry o entry generation s = .ok none (appended (o := o) entry s) := by
  rw [acceptEntry, entryRange_of_le hordered, check_ok]
  rw [get_bind]
  simp only [hlast, Option.getD_some, if_neg (not_le.mpr (hcov.lt.trans_le hordered)),
    if_neg (not_le.mpr hcov.lt), if_pos ((o.follows_iff _ _).mpr hcov)]
  rfl

theorem acceptEntry_gap {last : Cursor} (hordered : o.first entry ≤ o.last entry)
    (hlast : s.lastCursor = some last) (hlt : last < o.first entry) (hgap : ¬last ⋖ o.first entry) :
    acceptEntry o entry generation s = .ok (some {
      request := repairPageRequest o s
      requiredCursor := o.last entry
      through := o.last entry
      second := false
      generation := generation
      queued := [entry]
      notifications := [] }) s := by
  have hfollows : ¬o.follows last (o.first entry) = true :=
    fun h => hgap ((o.follows_iff _ _).mp h)
  rw [acceptEntry, entryRange_of_le hordered, check_ok]
  rw [get_bind]
  simp only [hlast, Option.getD_some, if_neg (not_le.mpr (hlt.trans_le hordered)),
    if_neg (not_le.mpr hlt), if_neg hfollows]
  rfl

/-- A page that ends where the queued entries begin commits the repair. -/
theorem afterPage_commits {repair : Repair Entry Cursor Request Notification}
    (hpage : Consecutive o.first o.last (o.entries page))
    (htail : tailCursor o (o.entries page) = o.last entry)
    (hqueued : Consecutive o.first o.last (entry :: rest)) (hrepair : repair.queued = entry :: rest)
    (hthrough : repair.through = o.last entry) (hrequired : repair.requiredCursor = o.last entry)
    (hne : o.entries page ≠ []) :
    afterPage o repair page s
      = .ok none (committed o page (o.entries page ++ rest) repair.notifications s) := by
  have hmerge := mergeReplacement_of_consecutive hpage htail hqueued
  have hmerged := (mergeReplacement_ok hmerge).1
  have hpassed : assertPageThrough o page (o.last entry) = .ok () := by
    rw [assertPageThrough, if_neg (not_not.mpr htail)]
    rfl
  have hreach : o.last entry ≤ tailCursor o (o.entries page ++ rest) := by
    rw [← htail, tailCursor, List.getLast?_eq_some_getLast hne]
    exact hmerged.le_reach o.emptyCursor (List.mem_append_left rest (List.getLast_mem hne))
  have htarget : maxCursor o repair.requiredCursor (entry :: rest)
      ≤ tailCursor o (o.entries page ++ rest) := by
    refine maxCursor_le (hrequired ▸ hreach) ?_
    intro other hother
    cases List.mem_cons.mp hother with
    | inl heq => exact heq ▸ hreach
    | inr hrest =>
      exact hmerged.le_reach o.emptyCursor (List.mem_append_right (o.entries page) hrest)
  have hkeep : (some (o.entries page ++ rest)).filter (fun entries =>
      decide (maxCursor o repair.requiredCursor (entry :: rest) ≤ tailCursor o entries))
      = some (o.entries page ++ rest) := by
    rw [Option.filter_some, decide_eq_true htarget, if_pos rfl]
  have hrun : commitReplacement o page (o.entries page ++ rest) repair.notifications s = _ :=
    commitReplacement_eq page (o.entries page ++ rest) repair.notifications s
  rw [afterPage, hthrough, hpassed, check_ok, hrepair, hmerge, check_ok]
  simp only [hkeep]
  change EStateM.bind _ _ s = _
  simp only [EStateM.bind, hrun]
  rfl

theorem prependPage_empty (hfirst : s.firstCursor = none) (hentries : o.entries page = []) :
    prependPage o page false s = .ok () (prepended o page [] (o.hasMore page) s) := by
  have hassert : assertPage o (o.entries page) = .ok () := by rw [hentries]; rfl
  rw [prependPage, if_neg Bool.false_ne_true]
  dsimp only
  rw [hassert, check_ok, hentries]
  rw [get_bind]
  simp only [hfirst]
  rfl

theorem prependPage_fits {head : Cursor} (hpage : Consecutive o.first o.last (o.entries page))
    (hfirst : s.firstCursor = some head)
    (hfits : ∀ tail ∈ ((o.entries page).filter fun entry => decide (o.first entry < head)).getLast?,
      o.last tail ⋖ head) :
    prependPage o page false s = .ok () (prepended o page
      ((o.entries page).filter fun entry => decide (o.first entry < head)) (o.hasMore page) s) := by
  rw [prependPage, if_neg Bool.false_ne_true]
  dsimp only
  rw [assertPage_of_consecutive hpage, check_ok]
  rw [get_bind]
  simp only [hfirst]
  cases hlast : ((o.entries page).filter fun entry => decide (o.first entry < head)).getLast? with
  | none => rfl
  | some tail =>
    simp only [if_pos ((o.follows_iff _ _).mpr (hfits tail hlast))]
    rfl

theorem prependPage_gap {head : Cursor} {tail : Entry}
    (hpage : Consecutive o.first o.last (o.entries page)) (hfirst : s.firstCursor = some head)
    (htail : tail ∈ ((o.entries page).filter fun entry => decide (o.first entry < head)).getLast?)
    (hgap : ¬o.last tail ⋖ head) :
    prependPage o page false s = .error
      (.violation s!"{o.name} history page is discontinuous") (prepended o page [] false s) := by
  have hfollows : ¬o.follows (o.last tail) head = true :=
    fun h => hgap ((o.follows_iff _ _).mp h)
  rw [prependPage, if_neg Bool.false_ne_true]
  dsimp only
  rw [assertPage_of_consecutive hpage, check_ok]
  rw [get_bind]
  simp only [hfirst, Option.mem_def.mp htail, if_neg hfollows]
  rfl

end Segments

end JournalStream

end TianmaCoder
