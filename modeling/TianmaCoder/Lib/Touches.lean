import Mathlib.Data.List.Basic
import Mathlib.Data.List.Induction
import Mathlib.Data.List.Nodup
import Mathlib.Data.Nat.Notation

/-!
# Reads and writes of keys

Stamped accesses of keys in the order they were made, and what is counted of them: the reads, the
writes, and the writes behind the last read. One list of accesses can be told by another that
counts every write: they agree on a key as long as the key has no write in front of a read. The
accesses may also be told by labels that change later.

## Main definitions

* `Touch` — one access of a key.
* `reads`, `writes`, `writesSince`, `last` — what is counted.
* `labelled` — the accesses that labels stand for.
* `Tallies`, `AgreesWith` — the counts of one list stand for those of another.

## Main results

* `AgreesWith.both`, `tallies_both_iff` — an access in both lists.
* `AgreesWith.left`, `tallies_left_iff` — an access that only the first list counts.
* `AgreesWith.relabel`, `tallies_relabel_iff` — a label that comes to mean another access.
-/

namespace TianmaCoder

namespace Touches

/-- How a key is accessed. -/
inductive Access where
  | read
  | write
  deriving DecidableEq

/-- One access of a key. -/
structure Touch (κ : Type*) where
  access : Access
  key : κ
  deriving DecidableEq

variable {κ ι : Type*}

/-- The accesses that stamped labels stand for. -/
def labelled (means : ι → Option (Touch κ)) (labels : List (ℕ × ι)) : List (ℕ × Touch κ) :=
  labels.filterMap fun label => (means label.2).map (Prod.mk label.1)

theorem labelled_snoc (means : ι → Option (Touch κ)) (labels : List (ℕ × ι)) (n : ℕ) (label : ι) :
    labelled means (labels ++ [(n, label)])
      = labelled means labels ++ ((means label).map (Prod.mk n)).toList := by
  rw [labelled, List.filterMap_append, ← labelled]
  cases hmeans : means label with
  | none => simp [hmeans]
  | some touch => simp [hmeans]

variable [DecidableEq κ]

/-! ## Counts -/

def reads (key : κ) (touches : List (ℕ × Touch κ)) : ℕ :=
  touches.countP fun touch => touch.2 = ⟨.read, key⟩

def writes (key : κ) (touches : List (ℕ × Touch κ)) : ℕ :=
  touches.countP fun touch => touch.2 = ⟨.write, key⟩

/-- The writes behind the last read. -/
def writesSince (key : κ) (touches : List (ℕ × Touch κ)) : ℕ :=
  (touches.reverse.takeWhile fun touch => touch.2 ≠ ⟨.read, key⟩).countP
    fun touch => touch.2 = ⟨.write, key⟩

/-- The stamp of the last access. -/
def last (key : κ) (touches : List (ℕ × Touch κ)) : Option ℕ :=
  (touches.reverse.find? fun touch => touch.2.key = key).map Prod.fst

variable {touches : List (ℕ × Touch κ)} {n : ℕ} {touch : Touch κ} {key : κ}

theorem reads_snoc : reads key (touches ++ [(n, touch)])
    = reads key touches + if touch = ⟨.read, key⟩ then 1 else 0 := by
  simp [reads, List.countP_cons]

theorem writes_snoc : writes key (touches ++ [(n, touch)])
    = writes key touches + if touch = ⟨.write, key⟩ then 1 else 0 := by
  simp [writes, List.countP_cons]

theorem writesSince_snoc : writesSince key (touches ++ [(n, touch)])
    = if touch = ⟨.read, key⟩ then 0
      else writesSince key touches + if touch = ⟨.write, key⟩ then 1 else 0 := by
  by_cases hread : touch = ⟨.read, key⟩
  · simp [writesSince, hread]
  · simp [writesSince, hread, List.countP_cons]

theorem last_snoc : last key (touches ++ [(n, touch)])
    = if touch.key = key then some n else last key touches := by
  by_cases hkey : touch.key = key
  · simp [last, hkey]
  · simp [last, hkey]

/-- The last access of a key is one of its accesses. -/
theorem exists_of_last (h : last key touches = some n) :
    ∃ touch, (n, touch) ∈ touches ∧ touch.key = key := by
  obtain ⟨entry, hfind, hstamp⟩ := Option.map_eq_some_iff.mp h
  have hkey := List.find?_some hfind
  have hmem := List.mem_reverse.mp (List.mem_of_find?_eq_some hfind)
  refine ⟨entry.2, ?_, by simpa using hkey⟩
  rw [← hstamp]
  exact hmem

theorem countP_of_last (h : last key touches = none) (access : Access) :
    touches.countP (fun touch => touch.2 = ⟨access, key⟩) = 0 := by
  rw [List.countP_eq_zero]
  intro entry hentry htouch
  have hnone := List.find?_eq_none.mp (Option.map_eq_none_iff.mp h) entry
    (List.mem_reverse.mpr hentry)
  rw [decide_eq_true_eq] at htouch
  simp [htouch] at hnone

/-- Two keys with the same last stamp are one, where the stamps are distinct. -/
theorem eq_of_last {key' : κ} (hnodup : (touches.map Prod.fst).Nodup)
    (h : last key touches = some n) (h' : last key' touches = some n) : key = key' := by
  obtain ⟨touch, hmem, hkey⟩ := exists_of_last h
  obtain ⟨touch', hmem', hkey'⟩ := exists_of_last h'
  have hsame := List.inj_on_of_nodup_map hnodup hmem hmem' rfl
  rw [← hkey, ← hkey', (Prod.mk.inj hsame).2]

/-! ## Labels -/

variable [DecidableEq ι]

/-- How often a label occurs. -/
def occurrences (label : ι) (labels : List (ℕ × ι)) : ℕ :=
  labels.countP fun other => other.2 = label

variable {means means' : ι → Option (Touch κ)} {label : ι} {labels : List (ℕ × ι)}

/-- The counts move from the old meaning of the label to the new one. -/
theorem countP_relabel (hother : ∀ other, other ≠ label → means' other = means other)
    (labels : List (ℕ × ι)) (touch : Touch κ) :
    (labelled means' labels).countP (fun t => t.2 = touch)
        + (if means label = some touch then occurrences label labels else 0)
      = (labelled means labels).countP (fun t => t.2 = touch)
        + (if means' label = some touch then occurrences label labels else 0) := by
  induction labels using List.reverseRecOn with
  | nil => simp [labelled, occurrences]
  | append_singleton labels entry ih =>
    obtain ⟨n, other⟩ := entry
    have hcount : occurrences label (labels ++ [(n, other)])
        = occurrences label labels + if other = label then 1 else 0 := by
      simp [occurrences, List.countP_cons]
    have hlast : ∀ m : ι → Option (Touch κ), (((m other).map (Prod.mk n)).toList).countP
        (fun t => t.2 = touch) = if m other = some touch then 1 else 0 := by
      intro m
      cases hm : m other with
      | none => simp
      | some t => simp [List.countP_cons]
    rw [labelled_snoc, labelled_snoc, List.countP_append, List.countP_append, hlast, hlast, hcount]
    by_cases heq : other = label
    · subst heq
      by_cases hold : means other = some touch
      · by_cases hnew : means' other = some touch
        · simp only [hold, hnew, if_true] at ih ⊢
          omega
        · simp only [hold, hnew, if_true, if_false] at ih ⊢
          omega
      · by_cases hnew : means' other = some touch
        · simp only [hold, hnew, if_true, if_false] at ih ⊢
          omega
        · simp only [hold, hnew, if_false] at ih ⊢
          omega
    · rw [hother other heq]
      simp only [heq, if_false, Nat.add_zero]
      omega

theorem last_relabel (hother : ∀ other, other ≠ label → means' other = means other)
    (hold : ∀ touch, means label = some touch → touch.key ≠ key)
    (hnew : ∀ touch, means' label = some touch → touch.key ≠ key) (labels : List (ℕ × ι)) :
    last key (labelled means' labels) = last key (labelled means labels) := by
  induction labels using List.reverseRecOn with
  | nil => rfl
  | append_singleton labels entry ih =>
    obtain ⟨n, other⟩ := entry
    rw [labelled_snoc, labelled_snoc]
    by_cases heq : other = label
    · subst heq
      have hkeep : ∀ (m : ι → Option (Touch κ)) (front : List (ℕ × Touch κ)),
          (∀ touch, m other = some touch → touch.key ≠ key) →
            last key (front ++ ((m other).map (Prod.mk n)).toList) = last key front := by
        intro m front hm
        cases htouch : m other with
        | none => simp
        | some touch =>
          have hne := hm touch htouch
          simp only [Option.map_some, Option.toList_some, last_snoc, if_neg hne]
      rw [hkeep means _ hold, hkeep means' _ hnew, ih]
    · rw [hother other heq]
      cases means other with
      | none => simpa using ih
      | some touch =>
        simp only [Option.map_some, Option.toList_some, last_snoc, ih]

/-! ## One list told by another -/

/-- The counts of the first list are those of the second, whose writes are counted from the last
read on. -/
structure Tallies (counted told : List (ℕ × Touch κ)) : Prop where
  reads : ∀ key, Touches.reads key counted = Touches.reads key told
  writes : ∀ key, 0 < Touches.reads key told →
    Touches.writes key counted = writesSince key told

/-- The last accesses are the same too. -/
structure AgreesWith (counted told : List (ℕ × Touch κ)) : Prop extends Tallies counted told where
  last : ∀ key, 0 < Touches.reads key told → Touches.last key counted = Touches.last key told

theorem agreesWith_nil : AgreesWith ([] : List (ℕ × Touch κ)) [] where
  reads _ := rfl
  writes _ _ := rfl
  last _ _ := rfl

variable {counted told : List (ℕ × Touch κ)}

/-- An access that both lists count keeps them in agreement, unless it reads a key with a write
that is counted. -/
theorem AgreesWith.both (h : AgreesWith counted told)
    (hread : touch.access = .read → writes touch.key counted = 0) :
    AgreesWith (counted ++ [(n, touch)]) (told ++ [(n, touch)]) where
  reads key := by
    rw [reads_snoc, reads_snoc, h.reads]
  writes key hpos := by
    rw [reads_snoc] at hpos
    rw [writes_snoc, writesSince_snoc]
    by_cases hkey : touch = ⟨.read, key⟩
    · subst hkey
      have hzero : writes key counted = 0 := hread rfl
      simp [hzero]
    · rw [if_neg hkey] at hpos ⊢
      rw [h.writes key hpos]
  last key hpos := by
    rw [reads_snoc] at hpos
    rw [last_snoc, last_snoc]
    by_cases hkey : touch.key = key
    · rw [if_pos hkey, if_pos hkey]
    · have hne : touch ≠ ⟨.read, key⟩ := by
        rintro rfl
        exact hkey rfl
      rw [if_neg hne] at hpos
      rw [if_neg hkey, if_neg hkey]
      exact h.last key hpos

theorem tallies_both_iff (h : AgreesWith counted told) :
    Tallies (counted ++ [(n, touch)]) (told ++ [(n, touch)]) ↔
      (touch.access = .read → writes touch.key counted = 0) := by
  constructor
  · intro htallies hread
    have htouch : touch = ⟨.read, touch.key⟩ := by
      rw [← hread]
    have hpos : 0 < reads touch.key (told ++ [(n, touch)]) := by
      rw [reads_snoc, if_pos htouch]
      omega
    have hwrites := htallies.writes touch.key hpos
    rw [writes_snoc, writesSince_snoc, if_pos htouch] at hwrites
    omega
  · intro hread
    exact (h.both hread).toTallies

/-- An access that only the first list counts keeps them in agreement where it writes a key that
is not read. -/
theorem AgreesWith.left (h : AgreesWith counted told) (hwrite : touch.access = .write)
    (hunread : reads touch.key told = 0) : AgreesWith (counted ++ [(n, touch)]) told where
  reads key := by
    have hne : touch ≠ ⟨.read, key⟩ := by
      rintro rfl
      cases hwrite
    rw [reads_snoc, if_neg hne, h.reads, Nat.add_zero]
  writes key hpos := by
    have hne : touch ≠ ⟨.write, key⟩ := by
      rintro rfl
      exact absurd hunread (Nat.ne_of_gt hpos)
    rw [writes_snoc, if_neg hne, h.writes key hpos, Nat.add_zero]
  last key hpos := by
    have hne : touch.key ≠ key := by
      rintro rfl
      omega
    rw [last_snoc, if_neg hne, h.last key hpos]

theorem tallies_left_iff (h : AgreesWith counted told) :
    Tallies (counted ++ [(n, touch)]) told ↔
      touch.access = .write ∧ reads touch.key told = 0 := by
  constructor
  · intro htallies
    have hreads := htallies.reads touch.key
    rw [reads_snoc, h.reads] at hreads
    have hwrite : touch.access = .write := by
      cases haccess : touch.access with
      | write => rfl
      | read =>
        have htouch : touch = ⟨.read, touch.key⟩ := by
          rw [← haccess]
        rw [if_pos htouch] at hreads
        omega
    refine ⟨hwrite, ?_⟩
    by_contra hne
    have hpos : 0 < reads touch.key told := by omega
    have hwrites := htallies.writes touch.key hpos
    have htouch : touch = ⟨.write, touch.key⟩ := by
      rw [← hwrite]
    rw [writes_snoc, if_pos htouch, h.writes touch.key hpos] at hwrites
    omega
  · rintro ⟨hwrite, hunread⟩
    exact (h.left hwrite hunread).toTallies

/-- An access that no count of a read key shows. -/
def Hidden (told : List (ℕ × Touch κ)) : Option (Touch κ) → Prop
  | none => True
  | some touch => touch.access = .write ∧ reads touch.key told = 0

/-- A meaning that touches a key is not hidden, or the key is not read and the touch a write. -/
theorem Hidden.ne_read {meaning : Option (Touch κ)} (h : Hidden told meaning) (key : κ) :
    meaning ≠ some ⟨.read, key⟩ := by
  rintro rfl
  cases h.1

theorem Hidden.key_ne {touch : Touch κ} (h : Hidden told (some touch))
    (hpos : 0 < reads key told) : touch.key ≠ key := by
  rintro rfl
  exact absurd h.2 (Nat.ne_of_gt hpos)

omit [DecidableEq κ] in
theorem labelled_of_absent (hother : ∀ other, other ≠ label → means' other = means other)
    (habsent : occurrences label labels = 0) : labelled means' labels = labelled means labels := by
  refine List.filterMap_congr ?_
  intro entry hentry
  have hne := List.countP_eq_zero.mp habsent entry hentry
  rw [hother entry.2 (by simpa using hne)]

/-- A label that comes to mean another access keeps the lists in agreement where it does not
occur or both accesses are hidden. -/
theorem AgreesWith.relabel (h : AgreesWith (labelled means labels) told)
    (hother : ∀ other, other ≠ label → means' other = means other)
    (hcase : occurrences label labels = 0 ∨ means' label = means label ∨
      Hidden told (means label) ∧ Hidden told (means' label)) :
    AgreesWith (labelled means' labels) told := by
  rcases hcase with habsent | hsame | ⟨hold, hnew⟩
  · rw [labelled_of_absent hother habsent]
    exact h
  · have hmeans : means' = means := by
      funext other
      by_cases heq : other = label
      · rw [heq, hsame]
      · exact hother other heq
    rw [hmeans]
    exact h
  · refine ⟨⟨?_, ?_⟩, ?_⟩
    · intro key
      have hcount := countP_relabel hother labels ⟨.read, key⟩
      rw [if_neg (hold.ne_read key), if_neg (hnew.ne_read key)] at hcount
      exact hcount.trans (h.reads key)
    · intro key hpos
      have hkeep : ∀ meaning, Hidden told meaning → meaning ≠ some ⟨.write, key⟩ := by
        rintro meaning hhidden rfl
        exact hhidden.key_ne hpos rfl
      have hcount := countP_relabel hother labels ⟨.write, key⟩
      rw [if_neg (hkeep _ hold), if_neg (hkeep _ hnew)] at hcount
      exact hcount.trans (h.writes key hpos)
    · intro key hpos
      rw [last_relabel hother ?_ ?_ labels, h.last key hpos]
      · intro touch htouch
        rw [htouch] at hold
        exact hold.key_ne hpos
      · intro touch htouch
        rw [htouch] at hnew
        exact hnew.key_ne hpos

theorem tallies_relabel_iff (h : AgreesWith (labelled means labels) told)
    (hother : ∀ other, other ≠ label → means' other = means other) :
    Tallies (labelled means' labels) told ↔
      occurrences label labels = 0 ∨ means' label = means label ∨
        Hidden told (means label) ∧ Hidden told (means' label) := by
  constructor
  · intro htallies
    by_contra hcase
    obtain ⟨hoccurs, hcase⟩ := not_or.mp hcase
    obtain ⟨hdiffers, hshown⟩ := not_or.mp hcase
    -- A count of the old labels and the same count of the new ones leave no room for a move.
    have hmove : ∀ touch, (labelled means' labels).countP (fun t => t.2 = touch)
        = (labelled means labels).countP (fun t => t.2 = touch) →
          (means label = some touch ↔ means' label = some touch) := by
      intro touch hequal
      have hcount := countP_relabel hother labels touch
      rw [hequal] at hcount
      by_cases hold : means label = some touch
      · by_cases hnew : means' label = some touch
        · exact iff_of_true hold hnew
        · rw [if_pos hold, if_neg hnew] at hcount
          omega
      · by_cases hnew : means' label = some touch
        · rw [if_neg hold, if_pos hnew] at hcount
          omega
        · exact iff_of_false hold hnew
    have hstays : ∀ touch, ¬Hidden told (some touch) →
        (means label = some touch ↔ means' label = some touch) := by
      intro touch hvisible
      refine hmove touch ?_
      obtain ⟨access, key⟩ := touch
      cases access with
      | read => exact (htallies.reads key).trans (h.reads key).symm
      | write =>
        have hpos : 0 < reads key told := by
          by_contra hzero
          exact hvisible ⟨rfl, Nat.eq_zero_of_not_pos hzero⟩
        exact (htallies.writes key hpos).trans (h.writes key hpos).symm
    refine hshown ⟨?_, ?_⟩
    · by_contra hvisible
      cases hmeaning : means label with
      | none =>
        rw [hmeaning] at hvisible
        exact hvisible trivial
      | some touch =>
        rw [hmeaning] at hvisible
        have hsame := (hstays touch hvisible).mp hmeaning
        exact hdiffers (hsame.trans hmeaning.symm)
    · by_contra hvisible
      cases hmeaning : means' label with
      | none =>
        rw [hmeaning] at hvisible
        exact hvisible trivial
      | some touch =>
        rw [hmeaning] at hvisible
        have hsame := (hstays touch hvisible).mpr hmeaning
        exact hdiffers (hmeaning.trans hsame.symm)
  · intro hcase
    exact (h.relabel hother hcase).toTallies

end Touches

end TianmaCoder
