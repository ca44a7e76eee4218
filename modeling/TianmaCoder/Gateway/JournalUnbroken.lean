import TianmaCoder.Gateway.JournalFollowing

/-!
# When a conforming server is reported as broken

In two cases only. A page read that completes when its generation was aborted ends the
consumer, where a read that fails then is awaited by the next generation. And a history page
that was asked for over less than what is older than the window, because a later generation has
replaced the window meanwhile, is taken for a gap or for the beginning of the journal.

## Main results

* `JournalStream.unbroken_iff_absorbed`.
-/

namespace TianmaCoder

open Checked Effect Transition

namespace JournalStream

variable {Page Entry Cursor Request Notification : Type} [LinearOrder Cursor]
  {o : Options Page Entry Cursor Request} {before : Request → Option Cursor}
  {journal : List Entry}

variable {s t : State Page Entry Cursor Request Notification}
  {w : World Page Entry Cursor Request Notification}

/-! ### Runs -/

variable {action : Action Page Entry Cursor Request Notification}

theorem step_forget (hstep : JournalStream.step o s action = some t) :
    ∃ delivered, JournalStream.step o { s with delivered := [] } action
      = some { t with delivered := delivered } := by
  have hsettle : ∀ (s' : State Page Entry Cursor Request Notification) delivered
      (segment : M Page Entry Cursor Request Notification
        (Point Entry Cursor Request Notification)),
      settle { s' with delivered := delivered } segment
        = { settle s' segment with delivered := delivered } := by
    intro s' delivered segment
    rw [settle, settle]
    cases segment s'.stream <;> rfl
  cases action with
  | append entry =>
    cases hstep
    exact ⟨[], rfl⟩
  | «open» request =>
    rw [JournalStream.step] at hstep ⊢
    by_cases hstarted : s.stream.started = true
    · rw [if_pos hstarted] at hstep ⊢
      cases hstep
      exact ⟨[], rfl⟩
    · rw [if_neg hstarted] at hstep ⊢
      cases hstep
      exact ⟨[], rfl⟩
  | next result aborted streamAborted =>
    have htake : ∃ delivered, take { s with delivered := [] } result
        = { take s result with delivered := delivered } := by
      unfold take
      split
      · exact ⟨_, rfl⟩
      · exact ⟨[], rfl⟩
      · exact ⟨[], rfl⟩
    obtain ⟨delivered, htake⟩ := htake
    refine ⟨delivered, ?_⟩
    rw [JournalStream.step] at hstep ⊢
    obtain ⟨segment, hsegment, ht⟩ := Option.map_eq_some_iff.mp hstep
    rw [Option.map_eq_some_iff]
    exact ⟨segment, hsegment, by rw [htake, hsettle, ht]⟩
  | page result aborted streamAborted =>
    rw [JournalStream.step] at hstep ⊢
    cases hconsumer : s.consumer with
    | reading repair =>
      rw [hconsumer] at hstep
      cases hstep
      refine ⟨[], ?_⟩
      exact congrArg some (hsettle s [] _)
    | _ =>
      rw [hconsumer] at hstep
      cases hstep
  | prepend request =>
    rw [JournalStream.step] at hstep ⊢
    by_cases hclosed : s.stream.opened = false ∨ s.stream.disposed = true
    · rw [if_pos hclosed] at hstep ⊢
      cases hstep
      exact ⟨[], rfl⟩
    · rw [if_neg hclosed] at hstep ⊢
      cases hstep
      exact ⟨[], rfl⟩
  | prepended index result aborted =>
    refine ⟨[], ?_⟩
    rw [JournalStream.step] at hstep ⊢
    cases hcall : s.prepends[index]? with
    | none =>
      rw [hcall] at hstep
      cases hstep
    | some call =>
      rw [hcall] at hstep
      cases result with
      | error error =>
        cases hstep
        rfl
      | ok page =>
        cases hrun : prependPage o page aborted s.stream with
        | ok u stream =>
          simp only [hrun, Option.some.injEq] at hstep ⊢
          rw [← hstep]
        | error error stream =>
          simp only [hrun, Option.some.injEq] at hstep ⊢
          rw [← hstep]
  | dispose =>
    cases hstep
    exact ⟨[], rfl⟩

theorem Conformed.inv_step (h : Conformed o w) (hconforms : Conforms o before w action)
    (hstep : JournalStream.step o w.state action = some t) :
    Inv o none { t with delivered := [] } := by
  obtain ⟨delivered, hforgotten⟩ := step_forget hstep
  have hjournal := h.inv.base.journal
  have hadmits : Admits o { w.state with delivered := [] } action := by
    cases action with
    | append entry => exact hconforms
    | next result aborted streamAborted =>
      cases result with
      | failed error => exact hconforms.elim
      | done => exact hconforms.elim
      | item item =>
        obtain ⟨generation, value⟩ := item
        cases value with
        | opened cursor page =>
          obtain ⟨hnewer, hslice, -, -⟩ := hconforms
          exact ⟨(h.generation ▸ hnewer).le, hslice.isInfix hjournal,
            fun _ hmem => absurd hmem List.not_mem_nil⟩
        | entry entry =>
          exact ⟨(hconforms.1.trans h.generation).ge, hconforms.2.2.1⟩
        | notification notification =>
          exact ⟨(hconforms.1.trans h.generation).ge, trivial⟩
    | page result aborted streamAborted =>
      cases result with
      | error error => trivial
      | ok page =>
        rw [JournalStream.step] at hstep
        cases hconsumer : w.state.consumer with
        | reading repair => exact (hconforms.2 repair hconsumer).isInfix hjournal
        | _ =>
          rw [hconsumer] at hstep
          cases hstep
    | prepended index result aborted =>
      cases result with
      | error error => trivial
      | ok page =>
        rw [JournalStream.step] at hstep
        cases hcall : w.state.prepends[index]? with
        | none =>
          rw [hcall] at hstep
          cases hstep
        | some call =>
          have hslice := hconforms.2 call hcall
          refine ⟨hslice.isInfix hjournal, ?_⟩
          intro call' hcall' entry hentry
          cases hcall.symm.trans hcall'
          exact (mem_asked.mp (hslice.isSuffix.subset hentry)).2.1
    | «open» request => trivial
    | prepend request => trivial
    | dispose => trivial
  have hinv := step_inv h.inv hadmits hforgotten
  have hb := hinv.base
  refine ⟨⟨hb.journal, hb.above, hb.windowed, hb.opened, hb.calls, hb.past, hb.inOrder⟩,
    hinv.unstarted, ?_⟩
  have hpoint := hinv.point
  change AtPoint o _ t.consumer at hpoint ⊢
  cases hconsumer : t.consumer with
  | unopened | opening =>
    rw [hconsumer] at hpoint
    exact ⟨hpoint.1, rfl, hpoint.2.2⟩
  | idle =>
    rw [hconsumer] at hpoint
    exact ⟨⟨hpoint.1.opened, hpoint.1.arrived⟩, fun _ hmem => absurd hmem List.not_mem_nil,
      hpoint.2.2⟩
  | reading repair =>
    rw [hconsumer] at hpoint
    obtain ⟨hlive, hgeneration, hrequired, hqueued, -, hrest⟩ := hpoint
    exact ⟨⟨hlive.opened, hlive.arrived⟩, hgeneration, hrequired, hqueued,
      fun _ hmem => absurd hmem List.not_mem_nil, hrest⟩
  | replacing generation =>
    rw [hconsumer] at hpoint
    exact ⟨⟨hpoint.1.opened, hpoint.1.arrived⟩, hpoint.2⟩
  | closed error => trivial

theorem Conformed.outcome {v : World Page Entry Cursor Request Notification} (h : Conformed o w)
    (hconforms : Conforms o before w action) (habsorbed : Absorbed o before w action)
    (hstep : World.step o w action = some v) : Outcome o w.state v.state v.feed := by
  obtain ⟨t, ht, hv⟩ := Option.map_eq_some_iff.mp hstep
  have hquiet : t.stream = w.state.stream → t.consumer = w.state.consumer →
      Outcome o w.state t w.feed := by
    intro hstream hconsumer
    exact Outcome.quiet h.generation h.undisposed rfl rfl hstream (hconsumer ▸ h.following)
  cases action with
  | append entry =>
    subst hv
    cases ht
    exact hquiet rfl rfl
  | «open» request =>
    subst hv
    rw [JournalStream.step] at ht
    by_cases hstarted : w.state.stream.started = true
    · rw [if_pos hstarted] at ht
      cases ht
      exact hquiet rfl rfl
    · rw [if_neg hstarted] at ht
      cases ht
      have hunopened := h.inv.unstarted (Bool.eq_false_iff.mpr hstarted)
      have hfollowing := h.following
      rw [show w.state.consumer = .unopened from hunopened] at hfollowing
      refine ⟨h.generation, h.undisposed, hfollowing, rfl, ?_⟩
      intro change hchange
      change change ∈ w.state.stream.published.drop w.state.stream.published.length at hchange
      rw [List.drop_length] at hchange
      cases hchange
  | next result aborted streamAborted =>
    cases result with
    | failed error => exact hconforms.elim
    | done => exact hconforms.elim
    | item item =>
      subst hv
      exact next_outcome h hconforms ht
  | page result aborted streamAborted =>
    subst hv
    exact page_outcome h hconforms habsorbed ht
  | prepend request =>
    subst hv
    rw [JournalStream.step] at ht
    by_cases hclosed : w.state.stream.opened = false ∨ w.state.stream.disposed = true
    · rw [if_pos hclosed] at ht
      cases ht
      exact hquiet rfl rfl
    · rw [if_neg hclosed] at ht
      cases ht
      exact hquiet rfl rfl
  | prepended index result aborted =>
    subst hv
    exact prepended_outcome h hconforms habsorbed ht
  | dispose => exact hconforms.elim

theorem Conformed.step {v : World Page Entry Cursor Request Notification} (h : Conformed o w)
    (hconforms : Conforms o before w action) (habsorbed : Absorbed o before w action)
    (hstep : World.step o w action = some v) : Conformed o v := by
  have houtcome := h.outcome hconforms habsorbed hstep
  obtain ⟨t, ht, hv⟩ := Option.map_eq_some_iff.mp hstep
  have hstate : v.state = t := by
    subst hv
    split <;> rfl
  exact ⟨hstate ▸ h.inv_step hconforms ht, houtcome.generation, houtcome.undisposed,
    houtcome.following⟩

/-! ### The two cases -/

theorem Conformed.unbroken (h : Conformed o w) (hconforms : Conforms o before w action)
    (habsorbed : Absorbed o before w action) : Unbroken o w action := by
  refine ⟨fun v hv => (h.outcome hconforms habsorbed hv).unreported, ?_,
    fun v hv => (h.outcome hconforms habsorbed hv).complete⟩
  intro index page aborted message stream haction hcall herror
  subst haction
  obtain ⟨call, hcall⟩ := Option.ne_none_iff_exists'.mp hcall
  obtain ⟨haborted, hslices⟩ := hconforms
  subst haborted
  obtain ⟨accepted, hrun, -⟩ := h.prepends (List.mem_of_getElem? hcall) (hslices call hcall)
    fun head hhead entry hentry hlt =>
      mem_asked.mpr ⟨hentry, habsorbed call hcall head hhead entry hentry hlt⟩
  rw [hrun] at herror
  cases herror

theorem Conformed.reported {page : Page} {aborted streamAborted : Bool}
    {repair : Repair Entry Cursor Request Notification} (h : Conformed o w)
    (hconsumer : w.state.consumer = .reading repair)
    (hunbroken : Unbroken o w (.page (.ok page) aborted streamAborted)) : aborted = false := by
  by_contra haborted
  have haborted : aborted = true := by simpa using haborted
  subst haborted
  have hopened : w.state.stream.opened = true := by
    have hfollowing := h.following
    rw [hconsumer] at hfollowing
    exact hfollowing.1
  have hsettle : settle w.state (readPage o repair (.ok page) true streamAborted)
      = { w.state with
        stream := { w.state.stream with failed := w.state.stream.failed ++ [.aborted] }
        consumer := .closed (some .aborted) } := by
    have hrun : readPage o repair (.ok page) true streamAborted w.state.stream
        = .error .aborted w.state.stream := rfl
    rw [settle, hrun]
    simp only [hopened, h.undisposed, Bool.not_false, Bool.and_self, ↓reduceIte]
  have hstep : World.step o w (.page (.ok page) true streamAborted)
      = some ⟨settle w.state (readPage o repair (.ok page) true streamAborted), w.feed⟩ := by
    rw [World.step, JournalStream.step, hconsumer]
    rfl
  have hsame := hunbroken.unreported _ hstep
  rw [hsettle] at hsame
  exact absurd hsame (by simp)

/-- A history page that was asked for over too little is taken for a gap, or for the beginning
of the journal. -/
theorem Conformed.hidden {index : ℕ} {page : Page} {aborted : Bool} {call : Request × Cursor}
    {head : Cursor} {entry : Entry} (h : Conformed o w)
    (hconforms : Conforms o before w (.prepended index (.ok page) aborted))
    (hcall : w.state.prepends[index]? = some call) (hhead : w.state.stream.firstCursor = some head)
    (hentry : entry ∈ w.state.journal) (hlt : o.first entry < head)
    (hunbroken : Unbroken o w (.prepended index (.ok page) aborted)) :
    entry ∈ asked o w.state.journal call.2 (before call.1) := by
  by_contra hmissing
  have hbase := h.inv.base
  have hjournal : Consecutive o.first o.last w.state.journal := hbase.journal
  obtain ⟨haborted, hslices⟩ := hconforms
  subst haborted
  have hslice := hslices call hcall
  have hpage := hjournal.of_isInfix (hslice.isInfix hjournal)
  -- the whole page lies before the entry that was not asked for
  have hbefore : ∀ other ∈ o.entries page, o.last other < o.first entry := by
    intro other hother
    have hin := hslice.isSuffix.subset hother
    have hmem := (mem_asked.mp hin).1
    cases hjournal.compare hmem hentry with
    | inl heq => exact absurd (heq ▸ hin) hmissing
    | inr hor =>
      cases hor with
      | inl hbefore => exact hbefore
      | inr hafter => exact absurd (asked_of_before hjournal hentry hin hafter) hmissing
  have hkept : (o.entries page).filter (fun other => decide (o.first other < head))
      = o.entries page := by
    refine List.filter_eq_self.mpr ?_
    intro other hother
    have hordered := hpage.ordered other hother
    exact decide_eq_true (hordered.trans_lt ((hbefore other hother).trans hlt))
  cases hlast : (o.entries page).getLast? with
  | some tail =>
    have htail := hbefore tail (List.mem_of_getLast? hlast)
    have hgap : ¬o.last tail ⋖ head := fun hcov => hcov.2 htail hlt
    have hrun := prependPage_gap (s := w.state.stream) hpage hhead (by rw [hkept]; exact hlast)
      hgap
    exact hunbroken.accepted index page false _ _ rfl (by rw [hcall]; exact Option.some_ne_none _)
      hrun
  | none =>
    have hnil := List.getLast?_eq_none_iff.mp hlast
    have hmore : o.hasMore page = false :=
      hslice.hasMore.mpr (hnil.trans (hslice.nonempty hnil).symm)
    have hrun : prependPage o page false w.state.stream
        = .ok () (prepended o page [] (o.hasMore page) w.state.stream) := by
      have hfits := prependPage_fits (s := w.state.stream) hpage hhead (by
        rw [hkept, hnil]
        exact fun _ hmem => nomatch hmem)
      rw [hkept, hnil] at hfits
      exact hfits
    obtain ⟨x, hx, hxwindow, hxhead⟩ := head_of_firstCursor hbase.windowed hhead
    have hstep : World.step o w (.prepended index (.ok page) false) = some ⟨{ w.state with
        prepends := w.state.prepends.eraseIdx index
        stream := prepended o page [] (o.hasMore page) w.state.stream }, w.feed⟩ := by
      rw [World.step, JournalStream.step, hcall]
      simp only [hrun]
      rfl
    have hwindow : window (prepended o page [] (o.hasMore page) w.state.stream).published
        = window w.state.stream.published := by
      rw [prepended, window_concat]
      rfl
    have hle := hunbroken.complete _ hstep
      (w.state.stream.generation, .prepend page [] (o.hasMore page))
      (by simp [prepended]) (by simp [Change.endsHistory, hmore]) x (hwindow ▸ hxwindow) entry
      hentry
    exact absurd hlt (not_lt.mpr (hxhead ▸ hle))

theorem Conformed.unbroken_iff (h : Conformed o w) (hconforms : Conforms o before w action) :
    Unbroken o w action ↔ Absorbed o before w action := by
  constructor
  · intro hunbroken
    cases action with
    | page result aborted streamAborted =>
      cases result with
      | error error => trivial
      | ok page => exact fun repair hconsumer => h.reported hconsumer hunbroken
    | prepended index result aborted =>
      cases result with
      | error error => trivial
      | ok page =>
        intro call hcall head hhead entry hentry hlt
        exact (mem_asked.mp (h.hidden hconforms hcall hhead hentry hlt hunbroken)).2
    | append entry => trivial
    | «open» request => trivial
    | next result aborted streamAborted => trivial
    | prepend request => trivial
    | dispose => trivial
  · exact h.unbroken hconforms

theorem Conformed.init : Conformed o (World.init o :
    World Page Entry Cursor Request Notification) :=
  ⟨Inv.init, rfl, rfl, rfl⟩

/-- No step of a conforming run is reported as broken, or hides history, exactly when in every
step the page that completes is still wanted. -/
theorem unbroken_iff_absorbed {actions : List (Action Page Entry Cursor Request Notification)}
    (hconforms : Guarded (World.step o) (Conforms o before) (World.init o) actions) :
    Guarded (World.step o) (Unbroken o) (World.init o) actions ↔
      Guarded (World.step o) (Absorbed o before) (World.init o) actions :=
  guarded_congr_under (fun _ _ h hside => h.unbroken_iff hside)
    (fun _ _ _ h hside habsorbed hstep => h.step hside habsorbed hstep) Conformed.init hconforms

/-- A repair reads its page, and the read completes when its generation was aborted or not. -/
def raced (aborted : Bool) : List (Action (List ℤ) ℤ ℤ Unit String) :=
  [.append 0, .append 1, .append 2, .append 3, .open (),
    .next (.item ⟨1, .opened 1 [0, 1]⟩) false false,
    .next (.item ⟨1, .entry 3⟩) false false,
    .page (.ok [0, 1, 2, 3]) aborted false]

theorem raced_conforms (aborted : Bool) :
    Guarded (World.step numbered) (Conforms numbered fun _ => none) (World.init numbered)
      (raced aborted) := by
  refine guarded_cons ⟨Order.covBy_iff_add_one_eq.mpr rfl, le_refl _⟩ rfl ?_
  refine guarded_cons ⟨Order.covBy_iff_add_one_eq.mpr rfl, le_refl _⟩ rfl ?_
  refine guarded_cons ⟨Order.covBy_iff_add_one_eq.mpr rfl, le_refl _⟩ rfl ?_
  refine guarded_cons ⟨Order.covBy_iff_add_one_eq.mpr rfl, le_refl _⟩ rfl ?_
  refine guarded_cons trivial rfl ?_
  refine guarded_cons ⟨by decide, ⟨⟨[], rfl⟩, by decide, by decide⟩, by decide, by decide⟩ rfl ?_
  refine guarded_cons ⟨by decide, by decide, by decide, by decide, by decide⟩ rfl ?_
  refine ⟨⟨rfl, ?_⟩, fun _ _ => trivial⟩
  intro repair hrepair
  cases hrepair
  exact ⟨⟨[], rfl⟩, by decide, by decide⟩

/-- A conforming run that ends with a report. -/
theorem reported_when_aborted :
    ¬∀ actions : List (Action (List ℤ) ℤ ℤ Unit String),
      Guarded (World.step numbered) (Conforms numbered fun _ => none) (World.init numbered)
        actions →
      Guarded (World.step numbered) (Unbroken numbered) (World.init numbered) actions := by
  intro h
  have hunbroken := h (raced true) (raced_conforms true)
  have hopen := (((((hunbroken.2 _ rfl).2 _ rfl).2 _ rfl).2 _ rfl).2 _ rfl)
  have hpage := ((hopen.2 _ rfl).2 _ rfl).1
  have hreported := hpage.unreported _ rfl
  cases hreported

/-- The same run is not reported when the read completes in time. -/
theorem unbroken_iff_absorbed_raced :
    (Guarded (World.step numbered) (Unbroken numbered) (World.init numbered) (raced false) ↔
      Guarded (World.step numbered) (Absorbed numbered fun _ => none) (World.init numbered)
        (raced false)) ∧
      ∃ w, run (World.step numbered) (World.init numbered) ((raced false).take 7) = some w ∧
        window w.state.stream.published = [0, 1] :=
  ⟨unbroken_iff_absorbed (raced_conforms false), _, rfl, by decide⟩

end JournalStream

end TianmaCoder
