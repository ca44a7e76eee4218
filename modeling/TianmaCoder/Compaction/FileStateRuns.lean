import TianmaCoder.Compaction.FileStateLedger
import TianmaCoder.Session.Invariant

/-!
# The ledger of read files over a log

As a log grows, the ledger stays right while every event is plain: a result that is counted is
the first of its call, a read finds no edit of its file counted before it, and a reused id does
not move results to another file. The section stays in its budget where the overflow line fits
too, and in its order where no current file was touched after a stale one.

## Main definitions

* `Plain` — an event that keeps the ledger right.
* `SectionFits` — a ledger whose section is right.
* `LedgerHolds` — what the ledger and its section promise along a log.

## Main results

* `ledgerHolds_iff` — when they do.
-/

namespace TianmaCoder

namespace FileRehydrator

open Touches Fidelity

variable {parse : String → Option Json} {log : List SessionEvent} {event : SessionEvent}
  {callId : String}

/-! ## One event -/

/-- An event that keeps the ledger right. -/
structure Plain (parse : String → Option Json) (log : List SessionEvent) (event : SessionEvent) :
    Prop where
  /-- A call with the id of a result means what it meant, or no file with a read is concerned. -/
  call : ∀ callId, callIdOf event = some callId →
    occurrences callId (results log) = 0 ∨
      meaning parse (log ++ [event]) callId = meaning parse log callId ∨
      Hidden (touches parse log) (meaning parse log callId) ∧
        Hidden (touches parse log) (meaning parse (log ++ [event]) callId)
  /-- A result that answers a read finds no edit of the file. -/
  answer : ∀ touch, touchAt parse log event = some touch →
    touch.access = .read → writes touch.key (counted parse log) = 0
  /-- A result that answers nothing is for an edit of a file that is not read. -/
  repeated : ∀ callId touch, resultIdOf event = some callId →
    meaning parse log callId = some touch → touchAt parse log event = none →
      touch.access = .write ∧ reads touch.key (touches parse log) = 0

/-- The results under a new record of their id. -/
theorem counted_call (h : callIdOf event = some callId) :
    counted parse (log ++ [event]) = labelled (meaning parse (log ++ [event])) (results log) := by
  have hresult : resultIdOf event = none := by
    by_contra hne
    rw [callIdOf_eq_none hne] at h
    cases h
  rw [counted, results_snoc, hresult, Option.map_none, Option.toList_none, List.append_nil]

theorem counted_other (h : callIdOf event = none) :
    counted parse (log ++ [event]) = counted parse log
      ++ (((resultIdOf event).bind (meaning parse log)).map (Prod.mk log.length)).toList := by
  have hmeaning : meaning parse (log ++ [event]) = meaning parse log := by
    funext callId
    exact meaning_snoc_of_ne (by rw [h]; exact (Option.some_ne_none _).symm)
  rw [counted, hmeaning, results_snoc, counted]
  cases hresult : resultIdOf event with
  | none => simp
  | some callId =>
    simp only [Option.map_some, Option.toList_some, labelled_snoc, Option.bind_some]

theorem touchAt_of_call (h : callIdOf event = some callId) : touchAt parse log event = none := by
  cases htouch : touchAt parse log event with
  | none => rfl
  | some touch =>
    obtain ⟨other, hresult, -⟩ := meaning_of_touchAt htouch
    have hnone : callIdOf event = none := callIdOf_eq_none (by rw [hresult]; exact Option.some_ne_none _)
    rw [hnone] at h
    cases h

theorem meaning_call (h : callIdOf event = some callId) :
    ∀ other, other ≠ callId → meaning parse (log ++ [event]) other = meaning parse log other := by
  intro other hne
  refine meaning_snoc_of_ne ?_
  rw [h]
  intro heq
  exact hne (Option.some.inj heq).symm

theorem agrees_snoc (h : AgreesWith (counted parse log) (touches parse log))
    (hplain : Plain parse log event) :
    AgreesWith (counted parse (log ++ [event])) (touches parse (log ++ [event])) := by
  cases hcall : callIdOf event with
  | some callId =>
    rw [counted_call hcall, touches_snoc, touchAt_of_call hcall, Option.map_none,
      Option.toList_none, List.append_nil]
    exact h.relabel (meaning_call hcall) (hplain.call callId hcall)
  | none =>
    rw [counted_other hcall, touches_snoc]
    cases htouch : touchAt parse log event with
    | some touch =>
      obtain ⟨callId, hresult, hmeaning⟩ := meaning_of_touchAt htouch
      rw [hresult, Option.bind_some, hmeaning]
      exact h.both (hplain.answer touch htouch)
    | none =>
      simp only [Option.map_none, Option.toList_none, List.append_nil]
      cases hcounted : (resultIdOf event).bind (meaning parse log) with
      | none => simpa using h
      | some touch =>
        obtain ⟨callId, hresult, hmeaning⟩ := Option.bind_eq_some_iff.mp hcounted
        have hhidden := hplain.repeated callId touch hresult hmeaning htouch
        exact h.left hhidden.1 hhidden.2

theorem plain_of_tallies (h : AgreesWith (counted parse log) (touches parse log))
    (htallies : Tallies (counted parse (log ++ [event])) (touches parse (log ++ [event]))) :
    Plain parse log event where
  call callId hcall := by
    rw [counted_call hcall, touches_snoc, touchAt_of_call hcall, Option.map_none,
      Option.toList_none, List.append_nil] at htallies
    exact (tallies_relabel_iff h (meaning_call hcall)).mp htallies
  answer touch htouch := by
    obtain ⟨callId, hresult, hmeaning⟩ := meaning_of_touchAt htouch
    have hcall : callIdOf event = none :=
      callIdOf_eq_none (by rw [hresult]; exact Option.some_ne_none _)
    rw [counted_other hcall, touches_snoc, htouch, hresult, Option.bind_some, hmeaning] at htallies
    exact (tallies_both_iff h).mp htallies
  repeated callId touch hresult hmeaning htouch := by
    have hcall : callIdOf event = none :=
      callIdOf_eq_none (by rw [hresult]; exact Option.some_ne_none _)
    rw [counted_other hcall, touches_snoc, htouch, hresult, Option.bind_some, hmeaning,
      Option.map_none, Option.toList_none, List.append_nil] at htallies
    exact (tallies_left_iff h).mp htallies

/-! ## Growing logs -/

theorem touches_stamps (log : List SessionEvent) :
    ((touches parse log).map Prod.fst).Nodup ∧ ∀ entry ∈ touches parse log, entry.1 < log.length := by
  induction log using List.reverseRecOn with
  | nil => exact ⟨List.nodup_nil, fun entry hentry => by cases hentry⟩
  | append_singleton log event ih =>
    rw [touches_snoc, List.length_append, List.length_singleton]
    cases touchAt parse log event with
    | none =>
      simp only [Option.map_none, Option.toList_none, List.append_nil]
      exact ⟨ih.1, fun entry hentry => Nat.lt_succ_of_lt (ih.2 entry hentry)⟩
    | some touch =>
      simp only [Option.map_some, Option.toList_some]
      constructor
      · rw [List.map_append, List.map_singleton]
        refine List.Nodup.append ih.1 (List.nodup_singleton _) ?_
        rw [List.disjoint_singleton]
        intro hmem
        obtain ⟨entry, hentry, hstamp⟩ := List.mem_map.mp hmem
        have hlt := ih.2 entry hentry
        omega
      · intro entry hentry
        rcases List.mem_append.mp hentry with hold | hnew
        · exact Nat.lt_succ_of_lt (ih.2 entry hold)
        · rw [List.mem_singleton.mp hnew]
          exact Nat.lt_succ_self _

/-- The ledger of a log and of every beginning of it. -/
def LedgerKept (parse : String → Option Json) (log : List SessionEvent) : Prop :=
  ∀ before, before <+: log →
    LedgerRight (touches parse before) (buildFileStateView parse before).entries

/-- Every event of a log is plain. -/
def AllPlain (parse : String → Option Json) (log : List SessionEvent) : Prop :=
  ∀ before event, before ++ [event] <+: log → Plain parse before event

theorem agrees_of_allPlain (h : AllPlain parse log) :
    AgreesWith (counted parse log) (touches parse log) := by
  induction log using List.reverseRecOn with
  | nil => exact agreesWith_nil
  | append_singleton log event ih =>
    refine agrees_snoc (ih ?_) (h log event (List.prefix_refl _))
    intro before other hpre
    exact h before other (hpre.trans (List.prefix_append log [event]))

/-- The ledger is right along a log exactly where every event of it is plain. -/
theorem ledgerKept_iff : LedgerKept parse log ↔ AllPlain parse log := by
  constructor
  · intro hkept
    induction log using List.reverseRecOn with
    | nil =>
      intro before event hpre
      simp at hpre
    | append_singleton log event ih =>
      have hearlier : AllPlain parse log :=
        ih fun before hpre => hkept before (hpre.trans (List.prefix_append log [event]))
      intro before other hpre
      rcases List.prefix_concat_iff.mp hpre with heq | hold
      · obtain ⟨rfl, hevent⟩ := List.append_inj' heq rfl
        obtain rfl : other = event := List.singleton_inj.mp hevent
        exact plain_of_tallies (agrees_of_allPlain hearlier)
          (tallies_of_ledgerRight (listing_view _) (hkept _ (List.prefix_refl _)))
      · exact hearlier before other hold
  · intro hplain before hpre
    refine ledgerRight_of_agrees (listing_view before) (touches_stamps before).1
      (agrees_of_allPlain ?_)
    intro earlier event hearlier
    exact hplain earlier event (hearlier.trans hpre)

/-! ## The section -/

variable {maxChars : ℤ} {view : FileStateView}

/-- How many files the section lists. -/
def listedCount (maxChars : ℤ) (entries : List FileStateEntry) : ℕ :=
  fitting maxChars (joinLines sectionHead).length entries

/-- What a section promises: its budget, and the stale files before the current ones. -/
structure SectionRight (maxChars : ℤ) (view : FileStateView) : Prop where
  bounded : ((renderRehydrationSection view maxChars).length : ℤ) ≤ maxChars
  staleFirst : ∀ i j current stale, i < listedCount maxChars view.entries →
    view.entries[i]? = some current → current.stale = false →
      view.entries[j]? = some stale → stale.stale = true → j < i

/-- A ledger whose section is right: the overflow line fits too, and no current file that is
listed was touched after a stale one. -/
structure SectionFits (maxChars : ℤ) (entries : List FileStateEntry) : Prop where
  empty : entries = [] → 0 ≤ maxChars
  overflow : listedCount maxChars entries < entries.length →
    ((joinLines sectionHead).length
      + size ((entries.take (listedCount maxChars entries)).map lineOf)
      + (overflowLine (entries.length - listedCount maxChars entries)).length + 1 : ℤ) ≤ maxChars
  current : ∀ current ∈ entries.take (listedCount maxChars entries), current.stale = false →
    ∀ stale ∈ entries, stale.stale = true → current.lastSeq < stale.lastSeq

theorem size_append (xs ys : List (List ℕ)) : size (xs ++ ys) = size xs + size ys := by
  rw [size, List.map_append, List.sum_append]
  rfl

/-- The budget of a section. -/
theorem budget_iff :
    ((renderRehydrationSection view maxChars).length : ℤ) ≤ maxChars ↔
      (view.entries = [] → 0 ≤ maxChars) ∧
        (listedCount maxChars view.entries < view.entries.length →
          ((joinLines sectionHead).length
            + size ((view.entries.take (listedCount maxChars view.entries)).map lineOf)
            + (overflowLine (view.entries.length - listedCount maxChars view.entries)).length + 1 : ℤ)
              ≤ maxChars) := by
  by_cases hempty : view.entries = []
  · have hnone : renderRehydrationSection view maxChars = [] := by
      rw [renderRehydrationSection, hempty]
      rfl
    rw [hnone, hempty]
    simp
  · rw [length_renderRehydrationSection hempty, entryLines_eq, ← listedCount, size_append]
    by_cases hmore : listedCount maxChars view.entries < view.entries.length
    · rw [if_pos hmore]
      simp only [size, List.map_cons, List.map_nil, List.sum_cons, List.sum_nil, hempty, hmore,
        false_implies, true_and, true_implies]
      push_cast
      constructor
      · intro h
        omega
      · intro h
        omega
    · have hall : fitting maxChars (joinLines sectionHead).length view.entries
          = view.entries.length := by
        have hle := fitting_le maxChars (joinLines sectionHead).length view.entries
        rw [listedCount] at hmore
        omega
      have hbudget := size_le_of_fitting hempty hall
      rw [if_neg hmore, listedCount, hall, List.take_length]
      simp only [size, List.map_nil, List.sum_nil, hempty, false_implies, true_and,
        Nat.lt_irrefl, Nat.add_zero] at hbudget ⊢
      exact iff_of_true hbudget trivial

/-- Behind the newest-first order, the order of a section is one of touches. -/
theorem staleFirst_iff (hnewest : view.entries.Pairwise fun a b => b.lastSeq < a.lastSeq) :
    (∀ i j current stale, i < listedCount maxChars view.entries →
      view.entries[i]? = some current → current.stale = false →
        view.entries[j]? = some stale → stale.stale = true → j < i) ↔
      ∀ current ∈ view.entries.take (listedCount maxChars view.entries), current.stale = false →
        ∀ stale ∈ view.entries, stale.stale = true → current.lastSeq < stale.lastSeq := by
  have hlater : ∀ (i j : ℕ) (a b : FileStateEntry), view.entries[i]? = some a →
      view.entries[j]? = some b → i < j → b.lastSeq < a.lastSeq := by
    intro i j a b ha hb hij
    obtain ⟨hi, rfl⟩ := List.getElem?_eq_some_iff.mp ha
    obtain ⟨hj, rfl⟩ := List.getElem?_eq_some_iff.mp hb
    exact List.pairwise_iff_getElem.mp hnewest i j hi hj hij
  constructor
  · intro h current hcurrent hfresh stale hstale hflag
    obtain ⟨i, hi⟩ := List.mem_iff_getElem?.mp hcurrent
    obtain ⟨j, hj⟩ := List.mem_iff_getElem?.mp hstale
    rw [List.getElem?_take] at hi
    by_cases hlisted : i < listedCount maxChars view.entries
    · rw [if_pos hlisted] at hi
      exact hlater j i stale current hj hi (h i j current stale hlisted hi hfresh hj hflag)
    · rw [if_neg hlisted] at hi
      cases hi
  · intro h i j current stale hlisted hi hfresh hj hflag
    by_contra hnot
    have hmem : current ∈ view.entries.take (listedCount maxChars view.entries) := by
      refine List.mem_iff_getElem?.mpr ⟨i, ?_⟩
      rw [List.getElem?_take, if_pos hlisted, hi]
    have hbefore := h current hmem hfresh stale (List.mem_iff_getElem?.mpr ⟨j, hj⟩) hflag
    by_cases heq : i = j
    · subst heq
      rw [hi] at hj
      cases hj
      omega
    · have hafter := hlater i j current stale hi hj (by omega)
      omega

theorem sectionRight_iff (hnewest : view.entries.Pairwise fun a b => b.lastSeq < a.lastSeq) :
    SectionRight maxChars view ↔ SectionFits maxChars view.entries := by
  constructor
  · intro h
    have hbudget := budget_iff.mp h.bounded
    exact ⟨hbudget.1, hbudget.2, (staleFirst_iff hnewest).mp h.staleFirst⟩
  · intro h
    exact ⟨budget_iff.mpr ⟨h.empty, h.overflow⟩, (staleFirst_iff hnewest).mpr h.current⟩

/-! ## Along a log -/

/-- The numbers of a ledger. -/
def numbersOf (view : FileStateView) : List (Path × ℕ × ℕ) :=
  view.entries.map fun entry => (entry.path, entry.readCount, entry.editsSinceLastRead)

/-- An event that is no call and no original result: a rewrite of results, or what a compaction
appends. -/
def Rewrites (event : SessionEvent) : Prop :=
  event.isReplacement = true ∨ event.type ≠ .toolCall ∧ event.type ≠ .toolResult

theorem touches_of_rewrites (h : Rewrites event) :
    touches parse (log ++ [event]) = touches parse log := by
  have hnone : touchAt parse log event = none := by
    unfold touchAt
    rcases h with hreplace | ⟨-, hresult⟩
    · rw [if_pos hreplace]
    · have hid : resultIdOf event = none := if_neg hresult
      rw [hid]
      exact ite_self _
  rw [touches_snoc, hnone, Option.map_none, Option.toList_none, List.append_nil]

/-- The ledger of read files and its section, along a log. -/
structure LedgerHolds (parse : String → Option Json) (maxChars : ℤ) (log : List SessionEvent) :
    Prop where
  /-- The ledger is what the log says. -/
  ledger : ∀ before, before <+: log →
    LedgerRight (touches parse before) (buildFileStateView parse before).entries
  /-- Rewritten results and compactions change no number. -/
  rewrites : ∀ before event, before ++ [event] <+: log → Rewrites event →
    numbersOf (buildFileStateView parse (before ++ [event]))
      = numbersOf (buildFileStateView parse before)
  /-- The section stays in its budget and lists the stale files first. -/
  listed : ∀ before, before <+: log → SectionRight maxChars (buildFileStateView parse before)

/-- The ledger and its section keep their promises along a log exactly where every event is plain
and every right ledger of it fits. -/
theorem ledgerHolds_iff (parse : String → Option Json) (maxChars : ℤ) (log : List SessionEvent) :
    LedgerHolds parse maxChars log ↔
      (∀ before event, before ++ [event] <+: log → Plain parse before event) ∧
        ∀ before, before <+: log → ∀ entries, LedgerRight (touches parse before) entries →
          SectionFits maxChars entries := by
  constructor
  · intro h
    refine ⟨ledgerKept_iff.mp h.ledger, ?_⟩
    intro before hpre entries hright
    have hview := h.ledger before hpre
    rw [hright.unique hview]
    exact (sectionRight_iff hview.newest).mp (h.listed before hpre)
  · rintro ⟨hplain, hfits⟩
    have hkept : LedgerKept parse log := ledgerKept_iff.mpr hplain
    refine ⟨hkept, ?_, ?_⟩
    · intro before event hpre hrewrites
      have hbefore := hkept before ((List.prefix_append before [event]).trans hpre)
      have hafter := hkept _ hpre
      rw [touches_of_rewrites hrewrites] at hafter
      rw [numbersOf, numbersOf, hafter.unique hbefore]
    · intro before hpre
      have hview := hkept before hpre
      exact (sectionRight_iff hview.newest).mpr (hfits before hpre _ hview)

/-! ## A file that is edited and then read -/

/-- The arguments of both calls. -/
def editedArguments : String := "\x7b\"path\":\"/src/a.ts\"\x7d"

/-- How they are parsed. -/
def editedParse (text : String) : Option Json :=
  if text = editedArguments then some (.obj [("path", .str "/src/a.ts")]) else none

def stepEvent (type : EventType) (seq : ℕ) : SessionEvent where
  type := type
  seq := seq
  time := 0
  data := .obj [("turn", .nat 1), ("step", .nat 1)]

def callEvent (seq : ℕ) (callId name : String) : SessionEvent where
  type := .toolCall
  seq := seq
  time := 0
  data := .obj [("turn", .nat 1), ("step", .nat 1), ("callId", .str callId), ("name", .str name),
    ("arguments", .str editedArguments)]

def resultEvent (seq : ℕ) (callId : String) : SessionEvent where
  type := .toolResult
  seq := seq
  time := 0
  data := .obj [("turn", .nat 1), ("step", .nat 1), ("message", .obj [("role", .str "tool"),
    ("content", .arr []), ("isError", .bool false), ("source", .obj [("callId", .str callId)])])]
  surfaceOp := some (.str "append")

/-- An edit of a file, and a read of it. -/
def editedLog : List SessionEvent :=
  [stepEvent .turnStart 0, stepEvent .stepStart 1, callEvent 2 "e1" "edit", resultEvent 3 "e1",
    callEvent 4 "r1" "read", resultEvent 5 "r1"]

theorem editedLog_accepted : (runTrace editedLog).isOk = true ∧
    (foldSurfaceState editedLog []).isOk = true := by
  decide +kernel

/-- The edit in front of the read is counted as one since the read. -/
theorem edit_before_read_counts : ¬∀ log, (runTrace log).isOk = true →
    (foldSurfaceState log []).isOk = true → LedgerHolds editedParse 4000 log := by
  intro h
  have hholds := h editedLog editedLog_accepted.1 editedLog_accepted.2
  have hplain := ledgerKept_iff.mp hholds.ledger (editedLog.take 5) (resultEvent 5 "r1") (by decide)
  have hcounted := hplain.answer ⟨.read, ⟨codeUnits "/src/a.ts"⟩⟩ (by decide +kernel) rfl
  revert hcounted
  decide +kernel

end FileRehydrator

end TianmaCoder
