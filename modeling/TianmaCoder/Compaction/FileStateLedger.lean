import TianmaCoder.Compaction.FileState
import TianmaCoder.Session.SurfaceStep
import Mathlib.Data.List.Sort

/-!
# What the ledger of read files counts

The ledger counts every result under the last record of its call id. The log says more: a result
answers the latest call of its id that is still open, and a rewritten result answers none. Both
are lists of touches of paths, and the ledger is right while the one tells the counts of the
other.

## Main definitions

* `meaning`, `results` — the records of the ids, and the results under them.
* `touches` — the touches of paths that the log tells of.
* `Listing`, `LedgerRight` — what the ledger lists, and what it should list.

## Main results

* `listing_view` — the ledger lists what the results count.
* `ledgerRight_of_agrees`, `tallies_of_ledgerRight` — when that is right.
-/

namespace TianmaCoder

namespace FileRehydrator

open Touches

variable (parse : String → Option Json)

/-! ## Touches of paths -/

/-- The touch of a call with a name and arguments. -/
def touchOf (name : String) (args : Option String) : Option (Touch Path) :=
  if READ_TOOLS.contains name.toLower then
    (pathFromArguments parse args).map fun path => ⟨.read, path⟩
  else if WRITE_TOOLS.contains name.toLower then
    (pathFromArguments parse args).map fun path => ⟨.write, path⟩
  else none

/-- The touch of a recorded call. -/
def touchOfCall (call : SessionEvent) : Option (Touch Path) :=
  touchOf parse ((Json.str? (call.field "name")).getD "") (Json.str? (call.field "arguments"))

/-- The last record of a call id. -/
def lastCall (log : List SessionEvent) (callId : String) : Option SessionEvent :=
  log.reverse.find? fun event => callIdOf event = some callId

/-- What the last record of an id touches. -/
def meaning (log : List SessionEvent) (callId : String) : Option (Touch Path) :=
  (lastCall log callId).bind (touchOfCall parse)

/-- The results of the log with their ids. -/
def results (log : List SessionEvent) : List (ℕ × String) :=
  log.zipIdx.filterMap fun entry => (resultIdOf entry.1).map (Prod.mk entry.2)

/-- An original result for an id. -/
def isAnswer (callId : String) (event : SessionEvent) : Bool :=
  resultIdOf event == some callId && !event.isReplacement

/-- The latest call of an id, while no original result answers it. -/
def openCall (log : List SessionEvent) (callId : String) : Option SessionEvent :=
  (log.reverse.find? fun event => callIdOf event == some callId || isAnswer callId event).filter
    fun event => callIdOf event == some callId

/-- The touch of the call that an event answers. -/
def touchAt (before : List SessionEvent) (event : SessionEvent) : Option (Touch Path) :=
  if event.isReplacement then none
  else ((resultIdOf event).bind (openCall before)).bind (touchOfCall parse)

/-- The touches of paths that a log tells of: the answered calls of reads and of edits. -/
def touches (log : List SessionEvent) : List (ℕ × Touch Path) :=
  log.zipIdx.filterMap fun entry => (touchAt parse (log.take entry.2) entry.1).map (Prod.mk entry.2)

variable {parse} {log : List SessionEvent} {event : SessionEvent} {callId : String}

theorem zipIdx_snoc (log : List SessionEvent) (event : SessionEvent) :
    (log ++ [event]).zipIdx = log.zipIdx ++ [(event, log.length)] := by
  rw [List.zipIdx_append]
  simp

theorem results_snoc : results (log ++ [event])
    = results log ++ ((resultIdOf event).map (Prod.mk log.length)).toList := by
  rw [results, zipIdx_snoc, List.filterMap_append, ← results]
  cases hresult : resultIdOf event with
  | none => simp [hresult]
  | some callId => simp [hresult]

theorem touches_snoc : touches parse (log ++ [event])
    = touches parse log ++ ((touchAt parse log event).map (Prod.mk log.length)).toList := by
  have hold : ∀ entry ∈ log.zipIdx,
      (touchAt parse ((log ++ [event]).take entry.2) entry.1).map (Prod.mk entry.2)
        = (touchAt parse (log.take entry.2) entry.1).map (Prod.mk entry.2) := by
    intro entry hentry
    have hlt := (List.mem_zipIdx' hentry).1
    rw [List.take_append_of_le_length hlt.le]
  rw [touches, zipIdx_snoc, List.filterMap_append, List.filterMap_congr hold, ← touches]
  cases htouch : touchAt parse log event with
  | none => simp [htouch]
  | some touch => simp [htouch]

theorem lastCall_snoc : lastCall (log ++ [event]) callId
    = if callIdOf event = some callId then some event else lastCall log callId := by
  by_cases hcall : callIdOf event = some callId
  · simp [lastCall, hcall]
  · simp [lastCall, hcall]

/-- An open call is the last record of its id. -/
theorem lastCall_of_openCall {call : SessionEvent} (h : openCall log callId = some call) :
    lastCall log callId = some call := by
  obtain ⟨hfind, hcall⟩ := Option.filter_eq_some_iff.mp h
  induction log using List.reverseRecOn with
  | nil => cases hfind
  | append_singleton log event ih =>
    rw [List.reverse_append, List.reverse_singleton, List.singleton_append] at hfind
    rw [lastCall_snoc]
    by_cases hevent : callIdOf event = some callId
    · rw [List.find?_cons_of_pos (by simp [hevent])] at hfind
      rw [if_pos hevent, hfind]
    · rw [if_neg hevent]
      by_cases hanswer : isAnswer callId event = true
      · rw [List.find?_cons_of_pos (by simp [hanswer])] at hfind
        cases hfind
        simp [hevent] at hcall
      · rw [List.find?_cons_of_neg (by simp [hevent, hanswer])] at hfind
        refine ih ?_ hfind
        exact Option.filter_eq_some_iff.mpr ⟨hfind, hcall⟩

theorem meaning_of_touchAt {touch : Touch Path} (h : touchAt parse log event = some touch) :
    ∃ callId, resultIdOf event = some callId ∧ meaning parse log callId = some touch := by
  unfold touchAt at h
  split at h
  · cases h
  · obtain ⟨call, hcall, htouch⟩ := Option.bind_eq_some_iff.mp h
    obtain ⟨callId, hid, hopen⟩ := Option.bind_eq_some_iff.mp hcall
    refine ⟨callId, hid, ?_⟩
    rw [meaning, lastCall_of_openCall hopen]
    exact htouch

theorem meaning_snoc_of_ne (h : callIdOf event ≠ some callId) :
    meaning parse (log ++ [event]) callId = meaning parse log callId := by
  rw [meaning, lastCall_snoc, if_neg h, ← meaning]

theorem callIdOf_eq_none (h : resultIdOf event ≠ none) : callIdOf event = none := by
  unfold resultIdOf at h
  unfold callIdOf
  by_cases hresult : event.type = .toolResult
  · rw [if_neg (by rw [hresult]; decide)]
  · rw [if_neg hresult] at h
    exact absurd rfl h

/-! ## The counts of the ledger -/

/-- The results as the touches of the last records of their ids. -/
def counted (parse : String → Option Json) (log : List SessionEvent) : List (ℕ × Touch Path) :=
  labelled (meaning parse log) (results log)

/-- The count of a path. -/
def countOf (path : Path) (touches : List (ℕ × Touch Path)) : Option FileCount :=
  (last path touches).map fun seq => ⟨reads path touches, writes path touches, seq⟩

theorem lookup_ledger {ν : Type*} (f : SessionEvent → ν) (log : List SessionEvent) (callId : String) :
    (log.foldl (fun ledger event =>
        match callIdOf event with
        | some callId => OrderedMap.set callId (f event) ledger
        | none => ledger) []).lookup callId
      = (lastCall log callId).map f := by
  induction log using List.reverseRecOn with
  | nil => rfl
  | append_singleton log event ih =>
    rw [List.foldl_concat, lastCall_snoc]
    cases hevent : callIdOf event with
    | none => simpa [hevent] using ih
    | some other =>
      simp only
      rw [OrderedMap.lookup_set]
      by_cases heq : callId = other
      · simp [heq]
      · have hne : ¬other = callId := fun h => heq h.symm
        simp [heq, hne, ih]

theorem lookup_nameByCall (log : List SessionEvent) (callId : String) :
    (nameByCall log).lookup callId
      = (lastCall log callId).map fun call => (Json.str? (call.field "name")).getD "" :=
  lookup_ledger _ log callId

theorem lookup_argsByCall (log : List SessionEvent) (callId : String) :
    (argsByCall log).lookup callId
      = (lastCall log callId).map fun call => Json.str? (call.field "arguments") :=
  lookup_ledger _ log callId

/-- The maps hold what the last record of an id means. -/
theorem touchOf_maps (log : List SessionEvent) (callId : String) :
    touchOf parse (((nameByCall log).lookup callId).getD "")
      (((argsByCall log).lookup callId).getD none) = meaning parse log callId := by
  rw [lookup_nameByCall, lookup_argsByCall, meaning]
  cases lastCall log callId with
  | none => simp [touchOf, pathFromArguments]
  | some call => rfl

/-- A count with one more touch. -/
def bumped (touch : Touch Path) (seq : ℕ) (count : FileCount) : FileCount where
  readCount := count.readCount + if touch.access = .read then 1 else 0
  editsSinceLastRead := count.editsSinceLastRead + if touch.access = .write then 1 else 0
  lastSeq := seq

/-- One result bumps the count of the path that it touches. -/
theorem countResult_fst (names : OrderedMap String String)
    (args : OrderedMap String (Option String)) (acc : OrderedMap Path FileCount × ℕ)
    (event : SessionEvent) (seq : ℕ) :
    (countResult parse names args acc (event, seq)).1
      = match (resultIdOf event).bind fun callId => touchOf parse ((names.lookup callId).getD "")
            ((args.lookup callId).getD none) with
        | none => acc.1
        | some touch => OrderedMap.set touch.key
            (bumped touch seq ((acc.1.lookup touch.key).getD ⟨0, 0, seq⟩)) acc.1 := by
  rw [countResult]
  cases resultIdOf event with
  | none => rfl
  | some callId =>
    simp only [Option.bind_some, touchOf]
    cases hread : READ_TOOLS.contains ((names.lookup callId).getD "").toLower with
    | true =>
      cases pathFromArguments parse ((args.lookup callId).getD none) with
      | none => rfl
      | some path => rfl
    | false =>
      cases hwrite : WRITE_TOOLS.contains ((names.lookup callId).getD "").toLower with
      | true =>
        cases pathFromArguments parse ((args.lookup callId).getD none) with
        | none => rfl
        | some path => rfl
      | false => rfl

/-- A map holds the counts of some touches. -/
structure Counts (touches : List (ℕ × Touch Path)) (counts : OrderedMap Path FileCount) :
    Prop where
  once : (OrderedMap.keys counts).Nodup
  lookup : ∀ path, counts.lookup path = countOf path touches

theorem countOf_snoc (path : Path) (touches : List (ℕ × Touch Path)) (seq : ℕ)
    (touch : Touch Path) :
    countOf path (touches ++ [(seq, touch)])
      = if touch.key = path then some (bumped touch seq ((countOf path touches).getD ⟨0, 0, seq⟩))
        else countOf path touches := by
  rw [countOf, last_snoc, reads_snoc, writes_snoc]
  by_cases hpath : touch.key = path
  · obtain ⟨access, key⟩ := touch
    obtain rfl : key = path := hpath
    rw [if_pos rfl, if_pos rfl, countOf]
    cases hlast : last key touches with
    | none =>
      have hreads : reads key touches = 0 := countP_of_last hlast .read
      have hwrites : writes key touches = 0 := countP_of_last hlast .write
      simp [bumped, hreads, hwrites]
    | some stamp => simp [bumped]
  · have hread : touch ≠ ⟨.read, path⟩ := by
      rintro rfl
      exact hpath rfl
    have hwrite : touch ≠ ⟨.write, path⟩ := by
      rintro rfl
      exact hpath rfl
    rw [if_neg hpath, if_neg hpath, if_neg hread, if_neg hwrite, Nat.add_zero, Nat.add_zero,
      countOf]

variable {touches : List (ℕ × Touch Path)}

theorem Counts.bump {counts : OrderedMap Path FileCount} (h : Counts touches counts)
    (touch : Touch Path) (seq : ℕ) :
    Counts (touches ++ [(seq, touch)]) (OrderedMap.set touch.key
      (bumped touch seq ((counts.lookup touch.key).getD ⟨0, 0, seq⟩)) counts) where
  once := OrderedMap.nodup_keys_set h.once _ _
  lookup path := by
    rw [OrderedMap.lookup_set, countOf_snoc, h.lookup]
    by_cases hpath : touch.key = path
    · rw [if_pos hpath.symm, if_pos hpath, hpath]
    · rw [if_neg (Ne.symm hpath), if_neg hpath, h.lookup]

variable (parse) in
/-- The loop over the results counts the touches of the last records. -/
theorem counts_fold (names : OrderedMap String String) (args : OrderedMap String (Option String))
    (log : List SessionEvent) :
    Counts (labelled (fun callId => touchOf parse ((names.lookup callId).getD "")
        ((args.lookup callId).getD none)) (results log))
      (log.zipIdx.foldl (countResult parse names args) ([], 0)).1 := by
  induction log using List.reverseRecOn with
  | nil => exact ⟨List.nodup_nil, fun path => rfl⟩
  | append_singleton log event ih =>
    rw [zipIdx_snoc, List.foldl_concat, countResult_fst, results_snoc]
    cases hresult : resultIdOf event with
    | none => simpa using ih
    | some callId =>
      simp only [Option.map_some, Option.toList_some, labelled_snoc, Option.bind_some]
      cases touchOf parse ((names.lookup callId).getD "") ((args.lookup callId).getD none) with
      | none => simpa using ih
      | some touch => exact ih.bump touch log.length

/-! ## The listed files -/

/-- What the ledger lists of some touches: the files with a read, each once, from the newest
touch on. -/
structure Listing (touches : List (ℕ × Touch Path)) (entries : List FileStateEntry) : Prop where
  counts : ∀ entry ∈ entries, countOf entry.path touches
    = some ⟨entry.readCount, entry.editsSinceLastRead, entry.lastSeq⟩
  listed : ∀ path, path ∈ entries.map FileStateEntry.path ↔ 0 < reads path touches
  once : (entries.map FileStateEntry.path).Nodup
  newest : entries.Pairwise fun a b => b.lastSeq ≤ a.lastSeq

theorem countOf_eq_some {path : Path} {count : FileCount} (h : countOf path touches = some count) :
    count.readCount = reads path touches ∧
      count.editsSinceLastRead = writes path touches ∧ last path touches = some count.lastSeq := by
  obtain ⟨seq, hlast, rfl⟩ := Option.map_eq_some_iff.mp h
  exact ⟨rfl, rfl, hlast⟩

theorem countOf_of_reads {path : Path} (h : 0 < reads path touches) :
    ∃ count, countOf path touches = some count := by
  cases hlast : last path touches with
  | none =>
    have hzero : reads path touches = 0 := countP_of_last hlast .read
    omega
  | some seq => exact ⟨_, by rw [countOf, hlast]; rfl⟩

theorem listing_view (log : List SessionEvent) :
    Listing (counted parse log) (buildFileStateView parse log).entries := by
  have hcounts := counts_fold parse (nameByCall log) (argsByCall log) log
  have hmeans : (fun callId => touchOf parse (((nameByCall log).lookup callId).getD "")
      (((argsByCall log).lookup callId).getD none)) = meaning parse log :=
    funext fun callId => touchOf_maps log callId
  rw [hmeans, ← counted] at hcounts
  generalize hfold : (log.zipIdx.foldl (countResult parse (nameByCall log) (argsByCall log))
    ([], 0)).1 = counts at hcounts
  have hentries : (buildFileStateView parse log).entries
      = ((counts.filter fun entry => entry.2.readCount > 0).mergeSort
          fun a b => b.2.lastSeq ≤ a.2.lastSeq).map fun entry =>
            ⟨entry.1, entry.2.readCount, entry.2.editsSinceLastRead, entry.2.lastSeq⟩ := by
    rw [← hfold]
    rfl
  have hperm := List.mergeSort_perm (counts.filter fun entry => entry.2.readCount > 0)
    fun a b => decide (b.2.lastSeq ≤ a.2.lastSeq)
  have hpaths : ((buildFileStateView parse log).entries.map FileStateEntry.path).Perm
      ((counts.filter fun entry => entry.2.readCount > 0).map Prod.fst) := by
    rw [hentries, List.map_map]
    exact hperm.map Prod.fst
  refine ⟨?_, ?_, ?_, ?_⟩
  · intro entry hentry
    rw [hentries] at hentry
    obtain ⟨⟨path, count⟩, hmem, rfl⟩ := List.mem_map.mp hentry
    have hfiltered := List.mem_filter.mp (hperm.mem_iff.mp hmem)
    rw [← hcounts.lookup]
    exact (OrderedMap.mem_iff_lookup hcounts.once path count).mp hfiltered.1
  · intro path
    rw [hpaths.mem_iff, List.mem_map]
    constructor
    · rintro ⟨⟨other, count⟩, hmem, rfl⟩
      obtain ⟨hmem, hpos⟩ := List.mem_filter.mp hmem
      have hlookup := (OrderedMap.mem_iff_lookup hcounts.once other count).mp hmem
      rw [hcounts.lookup] at hlookup
      rw [← (countOf_eq_some hlookup).1]
      simpa using hpos
    · intro hpos
      obtain ⟨count, hcount⟩ := countOf_of_reads hpos
      refine ⟨(path, count), List.mem_filter.mpr ⟨?_, ?_⟩, rfl⟩
      · rw [OrderedMap.mem_iff_lookup hcounts.once, hcounts.lookup, hcount]
      · have hreads := (countOf_eq_some hcount).1
        simp only [decide_eq_true_eq, gt_iff_lt]
        omega
  · rw [hpaths.nodup_iff]
    exact hcounts.once.sublist (List.filter_sublist.map _)
  · rw [hentries, List.pairwise_map]
    have hsorted : ((counts.filter fun entry => entry.2.readCount > 0).mergeSort
        fun a b => b.2.lastSeq ≤ a.2.lastSeq).Pairwise
          fun a b => decide (b.2.lastSeq ≤ a.2.lastSeq) = true := by
      refine List.pairwise_mergeSort ?_ ?_ _
      · intro a b c hab hbc
        simp only [decide_eq_true_eq] at hab hbc ⊢
        omega
      · intro a b
        simp only [Bool.or_eq_true, decide_eq_true_eq]
        omega
    refine hsorted.imp ?_
    intro a b hab
    simpa using hab

/-- What the ledger should list: the files with an answered read, each once, ordered by the most
recent touch, with the reads and the edits since the last read. -/
structure LedgerRight (touches : List (ℕ × Touch Path)) (entries : List FileStateEntry) : Prop where
  reads : ∀ entry ∈ entries, entry.readCount = Touches.reads entry.path touches
  edits : ∀ entry ∈ entries, entry.editsSinceLastRead = writesSince entry.path touches
  touched : ∀ entry ∈ entries, last entry.path touches = some entry.lastSeq
  listed : ∀ path, path ∈ entries.map FileStateEntry.path ↔ 0 < Touches.reads path touches
  once : (entries.map FileStateEntry.path).Nodup
  newest : entries.Pairwise fun a b => b.lastSeq < a.lastSeq

variable {told : List (ℕ × Touch Path)} {entries : List FileStateEntry}

theorem tallies_of_ledgerRight (h : Listing touches entries) (hright : LedgerRight told entries) :
    Tallies touches told := by
  have hentry : ∀ path, 0 < reads path told → ∃ entry ∈ entries, entry.path = path := by
    intro path hpos
    exact List.mem_map.mp ((hright.listed path).mpr hpos)
  refine ⟨?_, ?_⟩
  · intro path
    by_cases hpos : 0 < reads path told
    · obtain ⟨entry, hmem, rfl⟩ := hentry path hpos
      rw [← hright.reads entry hmem]
      exact (countOf_eq_some (h.counts entry hmem)).1.symm
    · have hnone : ¬0 < reads path touches := by
        rw [← h.listed, hright.listed]
        exact hpos
      omega
  · intro path hpos
    obtain ⟨entry, hmem, rfl⟩ := hentry path hpos
    rw [← hright.edits entry hmem]
    exact (countOf_eq_some (h.counts entry hmem)).2.1.symm

theorem ledgerRight_of_agrees (h : Listing touches entries) (hnodup : (told.map Prod.fst).Nodup)
    (hagrees : AgreesWith touches told) : LedgerRight told entries := by
  have hlisted : ∀ path, path ∈ entries.map FileStateEntry.path ↔ 0 < reads path told := by
    intro path
    rw [h.listed, hagrees.reads]
  have hread : ∀ entry ∈ entries, 0 < reads entry.path told :=
    fun entry hmem => (hlisted _).mp (List.mem_map_of_mem hmem)
  have htouched : ∀ entry ∈ entries, last entry.path told = some entry.lastSeq := by
    intro entry hmem
    rw [← hagrees.last _ (hread entry hmem)]
    exact (countOf_eq_some (h.counts entry hmem)).2.2
  refine ⟨?_, ?_, htouched, hlisted, h.once, ?_⟩
  · intro entry hmem
    rw [← hagrees.reads]
    exact (countOf_eq_some (h.counts entry hmem)).1
  · intro entry hmem
    rw [← hagrees.writes _ (hread entry hmem)]
    exact (countOf_eq_some (h.counts entry hmem)).2.1
  · have hboth : entries.Pairwise fun a b => b.lastSeq ≤ a.lastSeq ∧ a.path ≠ b.path :=
      h.newest.and (List.pairwise_map.mp h.once)
    refine hboth.imp_of_mem ?_
    intro a b ha hb hab
    refine Nat.lt_of_le_of_ne hab.1 ?_
    intro heq
    have hlast := htouched a ha
    rw [← heq] at hlast
    exact hab.2 (eq_of_last hnodup hlast (htouched b hb))

theorem LedgerRight.unique {entries' : List FileStateEntry} (h : LedgerRight told entries)
    (h' : LedgerRight told entries') : entries = entries' := by
  have hsubset : ∀ {xs ys : List FileStateEntry}, LedgerRight told xs → LedgerRight told ys →
      ∀ entry ∈ xs, entry ∈ ys := by
    intro xs ys hx hy entry hentry
    have hpos := (hx.listed entry.path).mp (List.mem_map_of_mem hentry)
    obtain ⟨other, hother, hpath⟩ := List.mem_map.mp ((hy.listed entry.path).mpr hpos)
    have hsame : other = entry := by
      have hreads := (hy.reads other hother).trans (hpath ▸ (hx.reads entry hentry).symm)
      have hedits := (hy.edits other hother).trans (hpath ▸ (hx.edits entry hentry).symm)
      have hseq := (hy.touched other hother).symm.trans (hpath ▸ hx.touched entry hentry)
      cases other
      cases entry
      simp_all
    exact hsame ▸ hother
  have hperm : entries.Perm entries' := by
    rw [List.perm_ext_iff_of_nodup (List.Nodup.of_map _ h.once) (List.Nodup.of_map _ h'.once)]
    exact fun entry => ⟨hsubset h h' entry, hsubset h' h entry⟩
  refine hperm.eq_of_pairwise ?_ h.newest h'.newest
  intro a b _ _ hab hba
  omega

end FileRehydrator

end TianmaCoder
