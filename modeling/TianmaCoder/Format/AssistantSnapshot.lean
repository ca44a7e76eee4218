import Mathlib.Data.Set.Basic
import TianmaCoder.Format.AssistantCompact
import TianmaCoder.Lib.Heap
import TianmaCoder.Lib.JsonText

/-!
# Snapshots of an attempt stream

The accumulator keeps the gaps and fragments of a run in arrays that it extends in place,
and a snapshot copies them. Here the arrays are cells of a heap, and the accumulator and
the snapshots it handed out hold references to them.

The arrays of the accumulator are its own: no snapshot refers to one. So a push writes to
no cell a snapshot reads, and every snapshot keeps the records it was taken with.

## Main definitions

* `RecordObject`, `RecordObject.toJson` — a record whose arrays are references.
* `Attempt.push`, `Attempt.snapshot` — the accumulator over the heap.
* `AttemptRun.run` — a sequence of pushes and snapshots.
* `AttemptRun.ExpandsTo` — a snapshot expands to the chunks, also through JSON text.

## Main results

* `Attempt.Represents.push`, `Attempt.Represents.snapshot` — the accumulator over the heap
  computes the records of `AssistantStreamAccumulator`.
* `AttemptRun.run_inv` — what a run establishes of its snapshots.
* `AttemptRun.streams_lossless` — snapshots expand to the chunks pushed before them.
-/

namespace TianmaCoder

open Checked

/-- A record object: the arrays of a run are held by reference. -/
inductive RecordObject where
  | run (key : DeltaKey) (time0 : ℤ) (dt members : ℕ)
  | chunk (time : ℤ) (chunk : Json)

/-- The arrays an attempt refers to. -/
abbrev Arrays := Heap (List Json)

namespace RecordObject

/-- The arrays of a record. -/
def refs : RecordObject → List ℕ
  | .run _ _ dt members => [dt, members]
  | .chunk _ _ => []

/-- The items of an array. -/
def items (heap : Arrays) (ref : ℕ) : List Json := (heap.read ref).getD []

/-- The record as it reads now. -/
def toJson (heap : Arrays) : RecordObject → Json
  | .run (.toolCall index id name) time0 dt members =>
    .obj ([("type", .str "tool-call-chunks"), ("time0", .int time0), ("index", .nat index),
        ("dt", .arr (items heap dt)), ("id", .str id)]
      ++ name.toList.map (fun n => ("name", .str n)) ++ [("args", .arr (items heap members))])
  | .run key time0 dt members =>
    .obj [("type", .str key.runType), ("time0", .int time0), ("index", .nat key.index),
      ("dt", .arr (items heap dt)), ("texts", .arr (items heap members))]
  | .chunk time value =>
    .obj [("type", .str "chunk"), ("time", .int time), ("chunk", value)]

/-- The object reads as the record. -/
def Holds (heap : Arrays) : RecordObject → AssistantStreamRecord → Prop
  | .run key time0 dt members, .run key' time0' gaps texts =>
    key = key' ∧ time0 = time0' ∧ heap.read dt = some (gaps.map .int) ∧
      heap.read members = some (texts.map .str)
  | .chunk time value, .chunk time' value' => time = time' ∧ value = value'
  | _, _ => False

variable {r : AssistantStreamRecord}

section

variable {heap : Arrays} {o : RecordObject} (h : o.Holds heap r)
include h

theorem Holds.toJson_eq :
    o.toJson heap = r.toJson := by
  cases o with
  | run key time0 dt members =>
    cases r with
    | run key' time0' gaps texts =>
      obtain ⟨rfl, rfl, hdt, hmembers⟩ := h
      have hdt' : items heap dt = gaps.map .int := by simp [items, hdt]
      have hmembers' : items heap members = texts.map .str := by simp [items, hmembers]
      cases key <;> simp [toJson, AssistantStreamRecord.toJson, hdt', hmembers']
    | chunk time value => exact absurd h id
  | chunk time value =>
    cases r with
    | run key' time0' gaps texts => exact absurd h id
    | chunk time' value' =>
      obtain ⟨rfl, rfl⟩ := h
      rfl

/-- Writes elsewhere leave a record as it is. -/
theorem Holds.keeps {heap' : Arrays} {refs : Set ℕ}
    (hkeeps : heap.Keeps heap' refs) (hrefs : ∀ ref ∈ o.refs, ref ∈ refs) : o.Holds heap' r := by
  cases o with
  | run key time0 dt members =>
    cases r with
    | run key' time0' gaps texts =>
      obtain ⟨hkey, htime, hdt, hmembers⟩ := h
      have hdt' := hkeeps.read_some (hrefs dt (by simp [RecordObject.refs])) hdt
      have hmembers' := hkeeps.read_some (hrefs members (by simp [RecordObject.refs])) hmembers
      exact ⟨hkey, htime, hdt', hmembers'⟩
    | chunk time value => exact absurd h id
  | chunk time value =>
    cases r with
    | run key' time0' gaps texts => exact absurd h id
    | chunk time' value' => exact h

/-- The arrays of a record that reads are cells of the heap. -/
theorem Holds.lt :
    ∀ ref ∈ o.refs, ref < heap.cells.length := by
  intro ref href
  cases o with
  | run key time0 dt members =>
    cases r with
    | run key' time0' gaps texts =>
      obtain ⟨_, _, hdt, hmembers⟩ := h
      rcases List.mem_cons.mp href with rfl | href
      · exact Heap.lt_of_read hdt
      · rw [List.mem_singleton.mp href]
        exact Heap.lt_of_read hmembers
    | chunk time value => exact absurd h id
  | chunk time value => simp [RecordObject.refs] at href

end

end RecordObject

/-! ## The accumulator over the heap -/

/-- A record under construction, with the time of its last chunk. -/
structure LiveRecord where
  object : RecordObject
  lastTime : ℤ

/-- The accumulator and the arrays of the program. -/
structure Attempt where
  heap : Arrays
  records : List LiveRecord

namespace Attempt

def empty : Attempt := ⟨Heap.empty, []⟩

/-- Append an item to an array in place. -/
def pushItem (heap : Arrays) (ref : ℕ) (item : Json) : Arrays :=
  heap.write ref (RecordObject.items heap ref ++ [item])

/-- The gap after the last record, when it is a run of the block. -/
def gapAfter (previous : Option LiveRecord) (key : DeltaKey) (time : ℤ) : Option ℤ :=
  match previous with
  | some ⟨.run key' _ _ _, lastTime⟩ => if key' = key then safeGap lastTime time else none
  | _ => none

/-- Add one timed chunk: a delta of the last run extends its two arrays. -/
def push (s : Attempt) (value : TimedStreamChunk) : Except String Attempt := do
  let time ← safeTime value.time
  match ← classifyChunk value.chunk with
  | none => pure ⟨s.heap, s.records ++ [⟨.chunk time value.chunk, time⟩]⟩
  | some (key, text) =>
    match s.records.getLast?, gapAfter s.records.getLast? key time with
    | some ⟨.run key' time0 dt members, _⟩, some gap =>
      let heap := pushItem (pushItem s.heap dt (.int gap)) members (.str text)
      pure ⟨heap, s.records.dropLast ++ [⟨.run key' time0 dt members, time⟩]⟩
    | _, _ =>
      let (dt, heap) := s.heap.alloc []
      let (members, heap) := heap.alloc [.str text]
      pure ⟨heap, s.records ++ [⟨.run key time dt members, time⟩]⟩

/-- A detached copy of a record: new arrays with the same items. -/
def copyRecord (heap : Arrays) : RecordObject → RecordObject × Arrays
  | .run key time0 dt members =>
    let (dt', heap₁) := heap.alloc (RecordObject.items heap dt)
    let (members', heap₂) := heap₁.alloc (RecordObject.items heap₁ members)
    (.run key time0 dt' members', heap₂)
  | .chunk time value => (.chunk time value, heap)

def copyRecords (heap : Arrays) : List LiveRecord → List RecordObject × Arrays
  | [] => ([], heap)
  | record :: records =>
    let (object, heap₁) := copyRecord heap record.object
    let (objects, heap₂) := copyRecords heap₁ records
    (object :: objects, heap₂)

/-- The current records, detached. -/
def snapshot (s : Attempt) : List RecordObject × Attempt :=
  let (objects, heap) := copyRecords s.heap s.records
  (objects, ⟨heap, s.records⟩)

/-! ## What the arrays hold -/

/-- The arrays of the accumulator. -/
def owned (s : Attempt) : List ℕ := s.records.flatMap fun record => record.object.refs

/-- The accumulator over the heap reads as the accumulator, and shares no array with itself. -/
structure Represents (s : Attempt) (a : AssistantStreamAccumulator) : Prop where
  holds : List.Forall₂ (fun o r => o.object.Holds s.heap r.record ∧ o.lastTime = r.lastTime)
    s.records a.records
  nodup : s.owned.Nodup

/-- A step writes to the arrays of the accumulator only, and takes new ones from the heap. -/
structure Within (s s' : Attempt) : Prop where
  keeps : s.heap.Keeps s'.heap {ref | ref ∉ s.owned}
  length_le : s.heap.cells.length ≤ s'.heap.cells.length
  owned : ∀ ref ∈ s'.owned, ref ∈ s.owned ∨ s.heap.cells.length ≤ ref

theorem forall₂_concat {α β : Type} {R : α → β → Prop} {xs : List α} {x : α} {ys : List β}
    (h : List.Forall₂ R (xs ++ [x]) ys) :
    ∃ ys' y, ys = ys' ++ [y] ∧ List.Forall₂ R xs ys' ∧ R x y := by
  induction xs generalizing ys with
  | nil =>
    cases h with
    | cons hxy hnil =>
      cases hnil
      exact ⟨[], _, rfl, .nil, hxy⟩
  | cons z xs ih =>
    cases h with
    | cons hzy hrest =>
      obtain ⟨ys', y, rfl, hys', hxy⟩ := ih hrest
      exact ⟨_ :: ys', y, rfl, .cons hzy hys', hxy⟩

theorem gapAfter_eq_some {previous : Option LiveRecord} {key : DeltaKey} {time gap : ℤ}
    (h : gapAfter previous key time = some gap) :
    ∃ time0 dt members lastTime, previous = some ⟨.run key time0 dt members, lastTime⟩ ∧
      safeGap lastTime time = some gap := by
  unfold gapAfter at h
  split at h
  · next key' time0 dt members lastTime =>
      split at h
      · next hkey =>
          subst hkey
          exact ⟨time0, dt, members, lastTime, rfl, h⟩
      · cases h
  · cases h

variable {s : Attempt} {a : AssistantStreamAccumulator}

/-- The arrays of the accumulator are cells of the heap. -/
theorem Represents.lt (h : s.Represents a) : ∀ ref ∈ s.owned, ref < s.heap.cells.length := by
  have hlt := (List.forall₂_and_left _ _).mp (h.holds.imp fun o r hh => ⟨hh.1.lt, hh⟩)
  intro ref href
  obtain ⟨o, ho, hmem⟩ := List.mem_flatMap.mp href
  exact hlt.1 o ho ref hmem

theorem Represents.extend_eq_none (h : s.Represents a) {key : DeltaKey} (text : String) {time : ℤ}
    (hgap : gapAfter s.records.getLast? key time = none) :
    AssistantStreamAccumulator.extend a.records.getLast? key text time = none := by
  rcases List.eq_nil_or_concat s.records with hnil | ⟨front, last, hconcat⟩
  · have hnil' : a.records = [] := List.forall₂_nil_left_iff.mp (hnil ▸ h.holds)
    rw [hnil']
    rfl
  · rw [List.concat_eq_append] at hconcat
    obtain ⟨front', last', hlast', _, hholds, htime⟩ := forall₂_concat (hconcat ▸ h.holds)
    rw [hconcat, List.getLast?_concat] at hgap
    rw [hlast', List.getLast?_concat]
    obtain ⟨object, lastTime⟩ := last
    obtain ⟨record, lastTime'⟩ := last'
    cases record with
    | chunk time value => rfl
    | run key' time0' dt' members' =>
      cases object with
      | chunk time value => exact absurd hholds id
      | run key₀ time0 dt members =>
        obtain ⟨rfl, _⟩ := hholds
        simp only at htime
        subst htime
        simp only [AssistantStreamAccumulator.extend]
        simp only [gapAfter] at hgap
        by_cases hkey : key₀ = key
        · rw [if_pos hkey] at hgap
          simp [hkey, hgap]
        · rw [if_neg hkey]

theorem Represents.append (h : s.Represents a) {heap : Arrays} {o : LiveRecord} {r : MutableRecord}
    (hkeeps : s.heap.Keeps heap Set.univ) (hholds : o.object.Holds heap r.record)
    (htime : o.lastTime = r.lastTime) (hnodup : o.object.refs.Nodup)
    (hnew : ∀ ref ∈ o.object.refs, s.heap.cells.length ≤ ref)
    (hle : s.heap.cells.length ≤ heap.cells.length) :
    (Attempt.mk heap (s.records ++ [o])).Represents ⟨a.records ++ [r]⟩ ∧
      s.Within ⟨heap, s.records ++ [o]⟩ := by
  have howned : (Attempt.mk heap (s.records ++ [o])).owned = s.owned ++ o.object.refs := by
    simp [Attempt.owned]
  have hcells := h.lt
  refine ⟨⟨?_, ?_⟩, ⟨?_, hle, ?_⟩⟩
  · refine List.rel_append ?_ (.cons ⟨hholds, htime⟩ .nil)
    exact h.holds.imp fun o' r' ⟨hh, ht⟩ => ⟨hh.keeps hkeeps fun _ _ => Set.mem_univ _, ht⟩
  · rw [howned, List.nodup_append]
    refine ⟨h.nodup, hnodup, ?_⟩
    intro x hx y hy hxy
    have h₁ := hcells x hx
    have h₂ := hnew y hy
    omega
  · exact fun ref _ => hkeeps ref (Set.mem_univ _)
  · intro ref href
    rw [howned] at href
    rcases List.mem_append.mp href with href | href
    · exact .inl href
    · exact .inr (hnew ref href)

theorem Represents.extend (h : s.Represents a) {key : DeltaKey} (text : String)
    {time gap time0 lastTime : ℤ} {dt members : ℕ}
    (hlast : s.records.getLast? = some ⟨.run key time0 dt members, lastTime⟩)
    (hgap : safeGap lastTime time = some gap) :
    ∃ extended, AssistantStreamAccumulator.extend a.records.getLast? key text time = some extended ∧
      let heap := pushItem (pushItem s.heap dt (.int gap)) members (.str text)
      let s' := Attempt.mk heap (s.records.dropLast ++ [⟨.run key time0 dt members, time⟩])
      s'.Represents ⟨a.records.dropLast ++ [extended]⟩ ∧ s.Within s' := by
  obtain ⟨front, hfront⟩ := List.getLast?_eq_some_iff.mp hlast
  obtain ⟨front', last', hlast', hrest, hholds, htime⟩ := forall₂_concat (hfront ▸ h.holds)
  obtain ⟨record, lastTime'⟩ := last'
  cases record with
  | chunk t value => exact absurd hholds id
  | run key' time0' gaps texts =>
    obtain ⟨rfl, rfl, hdt, hmembers⟩ := hholds
    simp only at htime
    subst htime
    refine ⟨⟨.run key time0 (gaps ++ [gap]) (texts ++ [text]), time⟩, ?_, ?_⟩
    · rw [hlast', List.getLast?_concat]
      simp [AssistantStreamAccumulator.extend, hgap]
    · have howned : s.owned = front.flatMap (fun o => o.object.refs) ++ [dt, members] := by
        simp [Attempt.owned, hfront, RecordObject.refs]
      have hnodup := h.nodup
      rw [howned, List.nodup_append] at hnodup
      obtain ⟨_, hpair, hdisjoint⟩ := hnodup
      have hne : dt ≠ members := by
        intro heq
        simp [heq] at hpair
      have hitems : RecordObject.items s.heap dt = gaps.map .int := by
        simp [RecordObject.items, hdt]
      have hltdt := Heap.lt_of_read hdt
      have hltm := Heap.lt_of_read hmembers
      have hkept : ∀ refs : Set ℕ, dt ∉ refs → members ∉ refs → s.heap.Keeps
          (pushItem (pushItem s.heap dt (.int gap)) members (.str text)) refs := by
        intro refs hdt' hmembers'
        refine (Heap.Keeps.write s.heap hdt' _).trans (Heap.Keeps.write _ hmembers' _) ?_
        simp
      have hread : (pushItem s.heap dt (.int gap)).read members = some (texts.map .str) := by
        rw [pushItem, Heap.read_write_of_ne (Ne.symm hne), hmembers]
      have hfrontRefs : ∀ o ∈ front, ∀ ref ∈ o.object.refs, ref ≠ dt ∧ ref ≠ members := by
        intro o ho ref href
        have hmem : ref ∈ front.flatMap fun o => o.object.refs := List.mem_flatMap.mpr ⟨o, ho, href⟩
        exact ⟨hdisjoint ref hmem dt (by simp), hdisjoint ref hmem members (by simp)⟩
      dsimp only
      rw [hfront, hlast', List.dropLast_concat, List.dropLast_concat]
      refine ⟨⟨List.rel_append ?_ (.cons ⟨⟨rfl, rfl, ?_, ?_⟩, rfl⟩ .nil), ?_⟩, ?_, ?_, ?_⟩
      · refine ((List.forall₂_and_left _ _).mpr ⟨hfrontRefs, hrest⟩).imp ?_
        intro o r ⟨hrefs, hh, ht⟩
        refine ⟨hh.keeps (hkept {ref | ref ≠ dt ∧ ref ≠ members} ?_ ?_) hrefs, ht⟩ <;> simp
      · rw [pushItem, Heap.read_write_of_ne hne, pushItem, Heap.read_write_self hltdt, hitems]
        simp
      · rw [pushItem, Heap.read_write_self (by simpa [pushItem] using hltm)]
        simp [RecordObject.items, hread]
      · have heq : (Attempt.mk (pushItem (pushItem s.heap dt (.int gap)) members (.str text))
            (front ++ [⟨.run key time0 dt members, time⟩])).owned = s.owned := by
          simp [Attempt.owned, hfront, RecordObject.refs]
        rw [heq]
        exact h.nodup
      · refine hkept _ ?_ ?_ <;> simp [howned]
      · simp [pushItem]
      · intro ref href
        refine .inl ?_
        simpa [Attempt.owned, hfront, RecordObject.refs] using href

theorem admissible_of_push {s' : Attempt} {value : TimedStreamChunk} (h : s.push value = .ok s') :
    Admissible value := by
  obtain ⟨time, htime, h⟩ := bind_ok h
  obtain ⟨packed, hpacked, _⟩ := bind_ok h
  exact ⟨(safeTime_ok htime).2, packed, hpacked⟩

theorem Represents.push (h : s.Represents a) {value : TimedStreamChunk} (hvalue : Admissible value) :
    ∃ s' a', s.push value = .ok s' ∧ a.push value = .ok a' ∧ s'.Represents a' ∧ s.Within s' := by
  obtain ⟨hsafe, packed, hpacked⟩ := hvalue
  simp only [Attempt.push, AssistantStreamAccumulator.push, safeTime, hsafe, if_true, pure_eq,
    ok_bind, hpacked]
  cases packed with
  | none =>
    have happend := h.append (o := ⟨.chunk value.time value.chunk, value.time⟩)
      (r := ⟨.chunk value.time value.chunk, value.time⟩) (Heap.Keeps.refl s.heap _)
      ⟨rfl, rfl⟩ rfl (by simp [RecordObject.refs]) (by simp [RecordObject.refs]) (le_refl _)
    exact ⟨_, _, rfl, rfl, happend⟩
  | some packed =>
    obtain ⟨key, text⟩ := packed
    cases hgap : gapAfter s.records.getLast? key value.time with
    | some gap =>
      obtain ⟨time0, dt, members, lastTime, hlast, hsafeGap⟩ := gapAfter_eq_some hgap
      obtain ⟨extended, hextended, hspec⟩ := h.extend text hlast hsafeGap
      rw [hlast] at hgap
      simp only [hlast, hgap, hextended]
      exact ⟨_, _, rfl, rfl, hspec⟩
    | none =>
      have hextend := h.extend_eq_none text hgap
      simp only [hgap, hextend]
      have hkeeps : s.heap.Keeps ((s.heap.alloc []).2.alloc [Json.str text]).2 Set.univ :=
        (Heap.Keeps.alloc s.heap _ _).trans (Heap.Keeps.alloc _ _ _) (by simp)
      have happend := h.append
        (o := ⟨.run key value.time s.heap.cells.length (s.heap.cells.length + 1), value.time⟩)
        (r := ⟨.run key value.time [] [text], value.time⟩) hkeeps
        ⟨rfl, rfl, by simp [Heap.read, Heap.alloc], by simp [Heap.read, Heap.alloc]⟩ rfl
        (by simp [RecordObject.refs]) (by simp [RecordObject.refs]) (by simp; omega)
      refine ⟨_, _, ?_, rfl, happend⟩
      cases s.records.getLast? <;> simp [Heap.alloc]

/-! ## Snapshots -/

theorem copyRecord_spec {heap : Arrays} {o : RecordObject} {r : AssistantStreamRecord}
    (h : o.Holds heap r) :
    (copyRecord heap o).1.Holds (copyRecord heap o).2 r ∧
      heap.Keeps (copyRecord heap o).2 Set.univ ∧
      heap.cells.length ≤ (copyRecord heap o).2.cells.length ∧
      ∀ ref ∈ (copyRecord heap o).1.refs, heap.cells.length ≤ ref := by
  cases o with
  | chunk time value =>
    exact ⟨h, Heap.Keeps.refl heap _, le_refl _, by simp [copyRecord, RecordObject.refs]⟩
  | run key time0 dt members =>
    cases r with
    | chunk time value => exact absurd h id
    | run key' time0' gaps texts =>
      obtain ⟨hkey, htime, hdt, hmembers⟩ := h
      have hmembers' : (heap.alloc (gaps.map Json.int)).2.read members
          = some (texts.map .str) := by
        rw [Heap.read_alloc (Heap.lt_of_read hmembers), hmembers]
      simp only [copyRecord, RecordObject.items, hdt, Option.getD_some, hmembers']
      refine ⟨⟨hkey, htime, ?_, Heap.read_alloc_self⟩, ?_, by simp; omega, ?_⟩
      · rw [Heap.read_alloc (by simp [Heap.alloc]), Heap.read_alloc_self]
      · exact (Heap.Keeps.alloc heap _ _).trans (Heap.Keeps.alloc _ _ _) (by simp)
      · simp [RecordObject.refs, Heap.alloc]

theorem copyRecords_spec {heap : Arrays} {records : List LiveRecord} {rs : List MutableRecord}
    (h : List.Forall₂ (fun o r => o.object.Holds heap r.record) records rs) :
    List.Forall₂ (fun o r => o.Holds (copyRecords heap records).2 r.record)
        (copyRecords heap records).1 rs ∧
      heap.Keeps (copyRecords heap records).2 Set.univ ∧
      heap.cells.length ≤ (copyRecords heap records).2.cells.length ∧
      ∀ o ∈ (copyRecords heap records).1, ∀ ref ∈ o.refs, heap.cells.length ≤ ref := by
  induction records generalizing heap rs with
  | nil =>
    cases h
    exact ⟨.nil, Heap.Keeps.refl heap _, le_refl _, by simp [copyRecords]⟩
  | cons record records ih =>
    cases h with
    | cons hrecord hrest =>
      obtain ⟨hcopy, hkeeps, hle, hrefs⟩ := copyRecord_spec hrecord
      have hrest' := hrest.imp fun o r hh =>
        RecordObject.Holds.keeps hh hkeeps fun _ _ => Set.mem_univ _
      obtain ⟨hcopies, hkeeps', hle', hrefs'⟩ := ih hrest'
      simp only [copyRecords]
      refine ⟨.cons (hcopy.keeps hkeeps' fun _ _ => Set.mem_univ _) hcopies,
        hkeeps.trans hkeeps' hle, by omega, ?_⟩
      intro o ho ref href
      rcases List.mem_cons.mp ho with rfl | ho
      · exact hrefs ref href
      · have hge := hrefs' o ho ref href
        omega

/-- A snapshot reads as the records of the accumulator and shares no array with it. -/
theorem Represents.snapshot (h : s.Represents a) :
    s.snapshot.2.Represents a ∧ s.Within s.snapshot.2 ∧
      List.Forall₂ (fun o r => o.Holds s.snapshot.2.heap r) s.snapshot.1 a.snapshot ∧
      ∀ o ∈ s.snapshot.1, ∀ ref ∈ o.refs, ref ∉ s.owned ∧ ref < s.snapshot.2.heap.cells.length := by
  obtain ⟨hcopies, hkeeps, hle, hrefs⟩ := copyRecords_spec (h.holds.imp fun _ _ hh => hh.1)
  have hholds : List.Forall₂ (fun o r => o.Holds s.snapshot.2.heap r) s.snapshot.1 a.snapshot := by
    rw [AssistantStreamAccumulator.snapshot, List.forall₂_map_right_iff]
    exact hcopies
  refine ⟨⟨?_, h.nodup⟩, ⟨fun ref _ => hkeeps ref (Set.mem_univ _), hle, fun _ => .inl⟩, hholds, ?_⟩
  · exact h.holds.imp fun o r ⟨hh, ht⟩ => ⟨hh.keeps hkeeps fun _ _ => Set.mem_univ _, ht⟩
  · have hlt := (List.forall₂_and_left _ _).mp (hholds.imp fun o r hh => ⟨hh.lt, hh⟩)
    intro o ho ref href
    refine ⟨?_, hlt.1 o ho ref href⟩
    intro howned
    have h₁ := h.lt ref howned
    have h₂ := hrefs o ho ref href
    omega

/-! ## Runs -/

end Attempt

/-- A call on the accumulator of an attempt. -/
inductive StreamCall where
  | push (value : TimedStreamChunk)
  | snapshot

/-- The accumulator and the snapshots it handed out. -/
structure AttemptRun where
  attempt : Attempt
  taken : List (List RecordObject)

namespace AttemptRun

def empty : AttemptRun := ⟨Attempt.empty, []⟩

def call (st : AttemptRun) : StreamCall → Except String AttemptRun
  | .push value => do
    let attempt ← st.attempt.push value
    pure ⟨attempt, st.taken⟩
  | .snapshot => pure ⟨st.attempt.snapshot.2, st.taken ++ [st.attempt.snapshot.1]⟩

/-- A sequence of calls on a fresh accumulator. -/
def run (calls : List StreamCall) : Except String AttemptRun := calls.foldlM call empty

/-- The chunks pushed so far, and those that had been pushed at each snapshot. -/
def observe (seen : List TimedStreamChunk × List (List TimedStreamChunk)) :
    StreamCall → List TimedStreamChunk × List (List TimedStreamChunk)
  | .push value => (seen.1 ++ [value], seen.2)
  | .snapshot => (seen.1, seen.2 ++ [seen.1])

def observed (calls : List StreamCall) : List TimedStreamChunk × List (List TimedStreamChunk) :=
  calls.foldl observe ([], [])

theorem observed_snoc (calls : List StreamCall) (c : StreamCall) :
    observed (calls ++ [c]) = observe (observed calls) c := by
  simp [observed]

/-- A snapshot reads as valid records of the chunks, from arrays the accumulator does not own. -/
def Keeps (st : AttemptRun) (snapshot : List RecordObject) (pushed : List TimedStreamChunk) : Prop :=
  (∃ rs : List AssistantStreamRecord, List.Forall₂ (fun o r => o.Holds st.attempt.heap r) snapshot rs ∧
      (∀ r ∈ rs, r.Valid) ∧ rs.flatMap (·.expand) = pushed.map storedChunk) ∧
    ∀ o ∈ snapshot, ∀ ref ∈ o.refs, ref ∉ st.attempt.owned ∧ ref < st.attempt.heap.cells.length

/-- What holds after every sequence of calls. -/
structure Inv (st : AttemptRun) (seen : List TimedStreamChunk × List (List TimedStreamChunk)) :
    Prop where
  represents : ∃ a, st.attempt.Represents a ∧ ValidStream a.records ∧
    expandStream a.records = seen.1.map storedChunk
  taken : List.Forall₂ st.Keeps st.taken seen.2

variable {st : AttemptRun}

/-- A step of the accumulator leaves the snapshots it handed out as they are. -/
theorem Keeps.within {s' : Attempt} {taken' : List (List RecordObject)}
    {snapshot : List RecordObject} {pushed : List TimedStreamChunk} (h : st.Keeps snapshot pushed)
    (hwithin : st.attempt.Within s') : AttemptRun.Keeps ⟨s', taken'⟩ snapshot pushed := by
  obtain ⟨⟨rs, hholds, hvalid, hexpand⟩, hrefs⟩ := h
  refine ⟨⟨rs, ?_, hvalid, hexpand⟩, ?_⟩
  · refine ((List.forall₂_and_left _ _).mpr ⟨hrefs, hholds⟩).imp ?_
    intro o r ⟨ho, hh⟩
    exact hh.keeps hwithin.keeps fun ref href => (ho ref href).1
  · intro o ho ref href
    have ⟨hnot, hlt⟩ := hrefs o ho ref href
    have hle := hwithin.length_le
    refine ⟨?_, by dsimp only; omega⟩
    intro howned
    rcases hwithin.owned ref howned with h₁ | h₁
    · exact hnot h₁
    · omega

theorem Inv.call {st' : AttemptRun} {c : StreamCall}
    {seen : List TimedStreamChunk × List (List TimedStreamChunk)} (h : st.Inv seen)
    (hcall : st.call c = .ok st') : st'.Inv (observe seen c) := by
  obtain ⟨a, hrep, hvalid, hexpand⟩ := h.represents
  cases c with
  | push value =>
    obtain ⟨s', hpush, hcall⟩ := bind_ok hcall
    cases hcall
    have hadmissible := Attempt.admissible_of_push hpush
    obtain ⟨s₁, a', hpush', ha', hrep', hwithin⟩ := hrep.push hadmissible
    have heq : s' = s₁ := Except.ok.inj (hpush.symm.trans hpush')
    subst heq
    obtain ⟨_, hrecords⟩ := AssistantStreamAccumulator.push_ok_iff.mp ha'
    have hspec := appendStreamRecord_spec hvalid (recordOf_valid hadmissible)
    rw [recordOf_lastTime, ← hrecords, recordOf_expand, hexpand] at hspec
    refine ⟨⟨a', hrep', hspec.1, ?_⟩, h.taken.imp fun _ _ hk => hk.within hwithin⟩
    rw [hspec.2, observe, List.map_append]
    rfl
  | snapshot =>
    cases hcall
    obtain ⟨hrep', hwithin, hholds, hrefs⟩ := hrep.snapshot
    refine ⟨⟨a, hrep', hvalid, hexpand⟩, ?_⟩
    refine List.rel_append (h.taken.imp fun _ _ hk => hk.within hwithin) (.cons ⟨?_, hrefs⟩ .nil)
    refine ⟨a.snapshot, hholds, ?_, ?_⟩
    · intro r hr
      obtain ⟨m, hm, rfl⟩ := List.mem_map.mp hr
      exact (hvalid m hm).1
    · rw [← hexpand, AssistantStreamAccumulator.snapshot, expandStream, List.flatMap_map]

theorem run_inv {calls : List StreamCall} (h : run calls = .ok st) : st.Inv (observed calls) := by
  refine foldlM_induction (motive := fun pre st => st.Inv (observed pre)) h ?_ ?_
  · exact ⟨⟨.empty, ⟨.nil, List.nodup_nil⟩, by simp [ValidStream, AssistantStreamAccumulator.empty],
      rfl⟩, .nil⟩
  · intro pre c s₁ s₂ _ hinv hcall
    rw [observed_snoc]
    exact hinv.call hcall

theorem run_pushes {chunks : List TimedStreamChunk} (h : ∀ value ∈ chunks, Admissible value) :
    ∃ st, run (chunks.map .push) = .ok st ∧ st.taken = [] := by
  induction chunks using List.reverseRecOn with
  | nil => exact ⟨empty, rfl, rfl⟩
  | append_singleton chunks value ih =>
    rw [List.forall_mem_append] at h
    obtain ⟨st, hst, htaken⟩ := ih h.1
    obtain ⟨a, hrep, _⟩ := (run_inv hst).represents
    obtain ⟨s', _, hpush, _⟩ := hrep.push (h.2 value (by simp))
    refine ⟨⟨s', st.taken⟩, ?_, htaken⟩
    unfold run at hst
    rw [List.map_append, List.map_singleton, run, foldlM_snoc, hst, ok_bind, call, hpush]
    rfl

theorem observed_pushes (chunks : List TimedStreamChunk) :
    observed (chunks.map .push) = (chunks, []) := by
  induction chunks using List.reverseRecOn with
  | nil => rfl
  | append_singleton chunks value ih =>
    rw [List.map_append, List.map_singleton, observed_snoc, ih]
    rfl

/-- A snapshot, read now, expands to the chunks, also after a trip through JSON text. -/
def ExpandsTo (heap : Arrays) (snapshot : List RecordObject) (pushed : List TimedStreamChunk) :
    Prop :=
  ∃ expanded, expandAssistantStream (snapshot.map (·.toJson heap)) = .ok expanded ∧
    (∃ parsed, Json.parse (Json.stringify (.arr (snapshot.map (·.toJson heap)))) = some (.arr parsed) ∧
      expandAssistantStream parsed = .ok expanded) ∧
    List.Forall₂ SameChunk pushed expanded

theorem Keeps.expandsTo {snapshot : List RecordObject} {pushed : List TimedStreamChunk}
    (h : st.Keeps snapshot pushed) (hdeclared : ∀ value ∈ pushed, DeclaredDelta value.chunk) :
    ExpandsTo st.attempt.heap snapshot pushed := by
  obtain ⟨⟨rs, hholds, hvalid, hexpand⟩, _⟩ := h
  have hjson : snapshot.map (·.toJson st.attempt.heap) = rs.map (·.toJson) := by
    rw [← List.forall₂_eq_eq_eq, List.forall₂_map_left_iff, List.forall₂_map_right_iff]
    exact hholds.imp fun _ _ hh => hh.toJson_eq
  have hok := expandAssistantStream_toJson hvalid
  rw [← hjson, hexpand] at hok
  refine ⟨pushed.map storedChunk, hok, ⟨_, Json.parse_stringify _, hok⟩, ?_⟩
  rw [List.forall₂_map_right_iff, List.forall₂_same]
  exact fun value hvalue => storedChunk_same (hdeclared value hvalue)

/-- What had been pushed at a snapshot is a prefix of what is pushed in the end. -/
theorem prefix_of_observed (calls : List StreamCall) :
    ∀ pushed ∈ (observed calls).2, pushed <+: (observed calls).1 := by
  induction calls using List.reverseRecOn with
  | nil => simp [observed]
  | append_singleton calls c ih =>
    intro pushed hpushed
    rw [observed_snoc] at hpushed ⊢
    cases c with
    | push value => exact (ih pushed hpushed).trans (List.prefix_append _ _)
    | snapshot =>
      rcases List.mem_append.mp hpushed with hpushed | hpushed
      · exact ih pushed hpushed
      · rw [List.mem_singleton.mp hpushed]
        exact List.prefix_refl _

/-- Every snapshot of a run, read at its end, expands to the chunks pushed before it was
taken; and a stream that the expansion accepts, with chunks of their declared type, is pushed
again to one that expands to the same chunks. -/
theorem streams_lossless :
    (∀ (calls : List StreamCall) (st : AttemptRun), run calls = .ok st →
      (∀ value ∈ (observed calls).1, DeclaredDelta value.chunk) →
      List.Forall₂ (ExpandsTo st.attempt.heap) st.taken (observed calls).2) ∧
    ∀ (stream : List Json) (chunks : List TimedStreamChunk),
      expandAssistantStream stream = .ok chunks →
      (∀ record ∈ stream, record.get? "type" = some (.str "chunk") →
        ∀ chunk, record.get? "chunk" = some chunk → StreamChunk chunk) →
      ∃ st snapshot, run (chunks.map .push ++ [.snapshot]) = .ok st ∧ st.taken = [snapshot] ∧
        ExpandsTo st.attempt.heap snapshot chunks := by
  have hfirst : ∀ (calls : List StreamCall) (st : AttemptRun), run calls = .ok st →
      (∀ value ∈ (observed calls).1, DeclaredDelta value.chunk) →
      List.Forall₂ (ExpandsTo st.attempt.heap) st.taken (observed calls).2 := by
    intro calls st hrun hdeclared
    have hkeeps := (run_inv hrun).taken
    refine (List.forall₂_iff_get.mpr ⟨hkeeps.length_eq, ?_⟩)
    intro i hi hi'
    have hk := (List.forall₂_iff_get.mp hkeeps).2 i hi hi'
    refine hk.expandsTo fun value hvalue => hdeclared value ?_
    exact (prefix_of_observed calls _ (List.get_mem _ _)).subset hvalue
  refine ⟨hfirst, ?_⟩
  intro stream chunks hexpand hraw
  have hchunks := streamChunk_of_expand hexpand hraw
  obtain ⟨st, hst, htaken⟩ := run_pushes fun value hvalue =>
    ⟨(hchunks value hvalue).1, (hchunks value hvalue).2.1⟩
  have hrun : run (chunks.map .push ++ [.snapshot])
      = .ok ⟨st.attempt.snapshot.2, [st.attempt.snapshot.1]⟩ := by
    unfold run at hst
    rw [run, foldlM_snoc, hst, ok_bind, call, htaken]
    rfl
  refine ⟨_, st.attempt.snapshot.1, hrun, rfl, ?_⟩
  have hobserved : observed (chunks.map .push ++ [.snapshot]) = (chunks, [chunks]) := by
    rw [observed_snoc, observed_pushes]
    rfl
  have htakes := hfirst _ _ hrun (by
    rw [hobserved]
    exact fun value hvalue => (hchunks value hvalue).2.2)
  rw [hobserved] at htakes
  cases htakes with
  | cons hexpands _ => exact hexpands

/-- A raw text delta before the first block. -/
def rawRecord : Json :=
  .obj [("type", .str "chunk"), ("time", .int 0),
    ("chunk", .obj [("type", .str "text-delta"), ("index", .int (-1)), ("text", .str "")])]

/-- A raw record may store a chunk that no push takes. -/
theorem raw_chunk_not_pushed :
    ∃ chunks error, expandAssistantStream [rawRecord] = .ok chunks ∧
      run (chunks.map .push ++ [.snapshot]) = .error error := by
  refine ⟨[⟨0, .obj [("type", .str "text-delta"), ("index", .int (-1)), ("text", .str "")]⟩],
    "text-delta index must be a non-negative safe integer", ?_, ?_⟩
  · decide +kernel
  · rfl

/-- Two fragments of a block, with a snapshot after each. -/
def twoFragments : List StreamCall :=
  [.push ⟨5, (DeltaKey.text 0).delta "a"⟩, .snapshot,
    .push ⟨3, (DeltaKey.text 0).delta "b"⟩, .snapshot]

theorem streams_lossless_twoFragments :
    (∃ st, run twoFragments = .ok st ∧
      List.Forall₂ (ExpandsTo st.attempt.heap) st.taken (observed twoFragments).2) ∧
    ∃ st snapshot, run ([⟨5, (DeltaKey.text 0).delta "a"⟩].map .push ++ [.snapshot]) = .ok st ∧
      st.taken = [snapshot] ∧
      ExpandsTo st.attempt.heap snapshot [⟨5, (DeltaKey.text 0).delta "a"⟩] := by
  have hkey : ∀ index, index ≤ Json.maxSafeInteger → (DeltaKey.text index).Valid :=
    fun index h => ⟨h, nofun⟩
  have hzero := hkey 0 (Nat.zero_le _)
  constructor
  · refine ⟨_, rfl, streams_lossless.1 twoFragments _ rfl ?_⟩
    intro value hvalue
    have hmem : value ∈ [⟨5, (DeltaKey.text 0).delta "a"⟩, ⟨3, (DeltaKey.text 0).delta "b"⟩] := hvalue
    rcases List.mem_cons.mp hmem with rfl | hmem
    · exact declaredDelta_delta hzero "a"
    · rw [List.mem_singleton.mp hmem]
      exact declaredDelta_delta hzero "b"
  · refine streams_lossless.2 [AssistantStreamRecord.toJson (.run (.text 0) 5 [] ["a"])] _ ?_ ?_
    · have hvalid : ∀ r ∈ [AssistantStreamRecord.run (.text 0) 5 [] ["a"]], r.Valid := by
        simp [AssistantStreamRecord.Valid, hzero, memberTimes]
        decide
      exact expandAssistantStream_toJson hvalid
    · intro record hrecord htype
      rw [List.mem_singleton.mp hrecord] at htype
      simp [AssistantStreamRecord.toJson, DeltaKey.runType] at htype

end AttemptRun

end TianmaCoder
