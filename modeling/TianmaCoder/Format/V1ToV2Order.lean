import Mathlib.Data.List.Perm.Basic
import TianmaCoder.Format.V1ToV2Emission
import TianmaCoder.Format.V1ToV2Paths

/-!
# Order, references and the cut in the v1-to-v2 stage

A view is tracked: whatever moves led to it, its target is numbered, its references are
renamed, and what arrived is emitted or held. Each move keeps a tracked view good exactly
when it is allowed, so a whole run is good exactly when each of its moves is allowed.

## Main definitions

* `View.Tracks`, `View.Good` — what holds of every view, and of those that lost nothing.

## Main results

* `View.Tracks.move` — a move keeps a view good exactly when it is allowed.
* `View.Tracks.path` — so does a path of moves.
-/

namespace TianmaCoder

open Checked

namespace V1ToV2

/-- What holds of every view. -/
structure View.Tracks (header : ReleasedV1Header) (v : View) : Prop where
  wellFormed : v.WellFormed
  target : v.target.Tracks header v.next
  marked : v.target.Marked header
  images : (v.target.images ++ v.held.map signature).Perm v.arrived
  sorted : (v.arrived.map Prod.fst).Pairwise (· < ·)
  below : ∀ a ∈ v.arrived, a.1 < v.next

/-- The pending attempt lies on one side of the cut, and is not behind it. -/
def GroupOk (header : ReleasedV1Header) (t : Target) (g : AttemptGroup) : Prop :=
  (g.start < header.sourceCut ↔ g.lastChunkSeq < header.sourceCut) ∧
    (t.targetCut.isSome → header.sourceCut ≤ g.start)

/-- What holds of a view that lost nothing. -/
structure View.Good (header : ReleasedV1Header) (v : View) : Prop where
  order : (v.target.positions ++ v.held.map SessionEvent.seq).Pairwise (· ≤ ·)
  cites : ∀ a ∈ v.arrived, some (.nat a.1) ∉ a.2
  after : v.target.After header
  held : v.target.targetCut.isSome → ∀ e ∈ v.held, header.sourceCut ≤ e.seq
  group : ∀ g, v.group = some g → GroupOk header v.target g

variable {header : ReleasedV1Header} {v v' : View}

namespace View.Tracks

theorem positions_le (hv : v.Tracks header) {p : ℕ} (hp : p ∈ v.target.positions) : p ≤ v.next := by
  obtain ⟨x, hx, hposition⟩ := List.mem_filterMap.mp hp
  obtain ⟨i, hi⟩ := List.mem_iff_getElem?.mp hx
  exact hv.target.positions i x hi p hposition

/-! ## Arrival -/

variable {event : SessionEvent}

theorem arrive (hv : v.Tracks header) (hseq : event.seq = v.next) :
    View.Tracks header { v with
      held := v.held ++ [event]
      arrived := v.arrived ++ [signature event]
      next := v.next + 1 } where
  wellFormed := hv.wellFormed.arrive hseq
  target := hv.target.mono (Nat.le_succ _)
  marked := hv.marked
  images := by
    rw [List.map_append, ← List.append_assoc]
    exact hv.images.append_right [signature event]
  sorted := by
    rw [List.map_append, List.pairwise_append]
    refine ⟨hv.sorted, List.pairwise_singleton _ _, ?_⟩
    intro a ha b hb
    obtain ⟨arrived, harrived, rfl⟩ := List.mem_map.mp ha
    rw [List.map_singleton, List.mem_singleton] at hb
    have hlt := hv.below arrived harrived
    have hfirst : (signature event).1 = event.seq := rfl
    omega
  below := by
    intro a ha
    rcases List.mem_append.mp ha with ha | ha
    · exact Nat.lt_succ_of_lt (hv.below a ha)
    · rw [List.mem_singleton] at ha
      subst ha
      exact Nat.lt_succ_of_le (Nat.le_of_eq hseq)

theorem good_arrive (hv : v.Tracks header) (hseq : event.seq = v.next) :
    View.Good header { v with
      held := v.held ++ [event]
      arrived := v.arrived ++ [signature event]
      next := v.next + 1 } ↔ v.Good header ∧ ¬ CitesItself event := by
  constructor
  · intro hgood
    have horder := hgood.order
    rw [List.map_append, ← List.append_assoc, List.pairwise_append] at horder
    refine ⟨⟨horder.1, ?_, hgood.after, ?_, hgood.group⟩, ?_⟩
    · exact fun a ha => hgood.cites a (List.mem_append_left _ ha)
    · exact fun hsome e he => hgood.held hsome e (List.mem_append_left _ he)
    · exact hgood.cites (signature event) (List.mem_append_right _ (List.mem_singleton_self _))
  · rintro ⟨hgood, hcites⟩
    refine ⟨?_, ?_, hgood.after, ?_, hgood.group⟩
    · rw [List.map_append, ← List.append_assoc, List.pairwise_append]
      refine ⟨hgood.order, List.pairwise_singleton _ _, ?_⟩
      intro a ha b hb
      rw [List.map_singleton, List.mem_singleton] at hb
      subst hb
      rw [hseq]
      rcases List.mem_append.mp ha with ha | ha
      · exact hv.positions_le ha
      · obtain ⟨e, he, rfl⟩ := List.mem_map.mp ha
        exact Nat.le_of_lt (hv.wellFormed.below e he)
    · intro a ha
      rcases List.mem_append.mp ha with ha | ha
      · exact hgood.cites a ha
      · rw [List.mem_singleton] at ha
        subst ha
        exact hcites
    · intro hsome e he
      rcases List.mem_append.mp he with he | he
      · exact hgood.held hsome e he
      · rw [List.mem_singleton] at he
        subst he
        rw [hseq]
        exact hv.target.reached hsome

/-! ## Release -/

variable {t' : Target}

theorem release (hv : v.Tracks header) {position : ℕ} (hevent : v.held[position]? = some event)
    (ht' : Target.Grown header v.target t' v.next event.seq (.source (tagEndSeed header event) [])) :
    View.Tracks header { v with target := t', held := v.held.eraseIdx position } where
  wellFormed := hv.wellFormed.release position t'
  target := ht'.tracks
  marked := ht'.marked
  images := by
    have hlt := (List.getElem?_eq_some_iff.mp hevent).1
    have hget := (List.getElem?_eq_some_iff.mp hevent).2
    have hperm := List.getElem_cons_eraseIdx_perm hlt
    rw [hget] at hperm
    have himage : (Origin.source (tagEndSeed header event) []).image?.toList = [signature event] := by
      simp [Origin.image?, Target.tagEndSeed_signature]
    rw [ht'.images, himage, List.append_assoc]
    refine List.Perm.trans ?_ hv.images
    exact (hperm.map signature).append_left _
  sorted := hv.sorted
  below := hv.below

/-- A release is good exactly when it takes the first held event, on the side of the
pending attempt. -/
theorem good_release (hv : v.Tracks header) {position : ℕ} (hevent : v.held[position]? = some event)
    (ht' : Target.Grown header v.target t' v.next event.seq (.source (tagEndSeed header event) [])) :
    View.Good header { v with target := t', held := v.held.eraseIdx position }
      ↔ v.Good header ∧ position = 0 ∧ Uncrossed header v.group event.seq := by
  have hmem : event ∈ v.held := List.mem_of_getElem? hevent
  have htagged : (tagEndSeed header event).seq = event.seq :=
    congrArg Prod.fst (Target.tagEndSeed_signature event)
  have hpositions : t'.positions = v.target.positions ++ [event.seq] := by
    rw [ht'.positions]
    simp [Origin.position?, htagged]
  have hlive : Origin.Live header (.source (tagEndSeed header event) [])
      ↔ header.sourceCut ≤ event.seq := by
    simp [Origin.Live, Origin.seqs, htagged]
  have hgroup : ∀ g, v.group = some g →
      (GroupOk header t' g ↔ GroupOk header v.target g ∧
        (g.start < header.sourceCut ↔ event.seq < header.sourceCut)) := by
    intro g hg
    have hstart := hv.wellFormed.start_lt_held hg hmem
    simp only [GroupOk, ht'.some_iff]
    constructor
    · rintro ⟨hsides, hcut⟩
      refine ⟨⟨hsides, fun hsome => hcut (.inl hsome)⟩, ?_⟩
      constructor
      · intro hlt
        by_contra hge
        have hle := hcut (.inr (Nat.le_of_not_lt hge))
        omega
      · omega
    · rintro ⟨⟨hsides, hcut⟩, huncrossed⟩
      refine ⟨hsides, ?_⟩
      rintro (hsome | hle)
      · exact hcut hsome
      · omega
  constructor
  · intro hgood
    have hfirst : position = 0 := by
      by_contra hne
      obtain ⟨first, rest, hheld⟩ := List.exists_cons_of_ne_nil (List.ne_nil_of_mem hmem)
      obtain ⟨k, hk⟩ := Nat.exists_eq_succ_of_ne_zero hne
      have horder := hgood.order
      have hsorted := hv.wellFormed.sorted
      rw [hk, hheld, List.getElem?_cons_succ] at hevent
      rw [hheld, List.map_cons, List.pairwise_cons] at hsorted
      have hlt := hsorted.1 event.seq (List.mem_map_of_mem (List.mem_of_getElem? hevent))
      simp only [hpositions, hk, hheld, List.eraseIdx_cons_succ, List.map_cons,
        List.append_assoc, List.singleton_append, List.pairwise_append,
        List.pairwise_cons] at horder
      have hle := horder.2.1.1 first.seq (List.mem_cons_self)
      omega
    subst hfirst
    rw [← List.head?_eq_getElem?] at hevent
    obtain ⟨rest, hheld⟩ := List.head?_eq_some_iff.mp hevent
    have hafter := ht'.after.mp hgood.after
    refine ⟨⟨?_, hgood.cites, hafter.1, ?_, ?_⟩, rfl, ?_⟩
    · have horder := hgood.order
      simp only [hpositions, hheld, List.eraseIdx_cons_zero, List.append_assoc,
        List.singleton_append] at horder
      rw [hheld, List.map_cons]
      exact horder
    · intro hsome e he
      rw [hheld] at he
      rcases List.mem_cons.mp he with rfl | he
      · exact hlive.mp (hafter.2 (.inl hsome))
      · refine hgood.held (ht'.some_iff.mpr (.inl hsome)) e ?_
        rw [hheld]
        exact he
    · exact fun g hg => ((hgroup g hg).mp (hgood.group g hg)).1
    · exact fun g hg => ((hgroup g hg).mp (hgood.group g hg)).2
  · rintro ⟨hgood, hfirst, huncrossed⟩
    subst hfirst
    rw [← List.head?_eq_getElem?] at hevent
    obtain ⟨rest, hheld⟩ := List.head?_eq_some_iff.mp hevent
    refine ⟨?_, hgood.cites, ?_, ?_, ?_⟩
    · have horder := hgood.order
      rw [hheld, List.map_cons] at horder
      simp only [hpositions, hheld, List.eraseIdx_cons_zero, List.append_assoc,
        List.singleton_append]
      exact horder
    · refine ht'.after.mpr ⟨hgood.after, fun hreached => hlive.mpr ?_⟩
      rcases hreached with hsome | hle
      · exact hgood.held hsome event hmem
      · exact hle
    · intro hsome e he
      have hsorted := hv.wellFormed.sorted
      rw [hheld, List.map_cons, List.pairwise_cons] at hsorted
      rw [hheld, List.eraseIdx_cons_zero] at he
      have hlt := hsorted.1 e.seq (List.mem_map_of_mem he)
      rcases ht'.some_iff.mp hsome with hsome | hle
      · exact hgood.held hsome e (by rw [hheld]; exact List.mem_cons_of_mem _ he)
      · omega
    · exact fun g hg => (hgroup g hg).mpr ⟨hgood.group g hg, huncrossed g hg⟩

/-! ## Generation -/

theorem generate (hv : v.Tracks header)
    (ht' : Target.Grown header v.target t' v.next v.next (.generated v.next)) :
    View.Tracks header { v with target := t' } where
  wellFormed := ⟨hv.wellFormed.group, hv.wellFormed.sorted, hv.wellFormed.below,
    hv.wellFormed.behind⟩
  target := ht'.tracks
  marked := ht'.marked
  images := by
    rw [ht'.images]
    simpa [Origin.image?] using hv.images
  sorted := hv.sorted
  below := hv.below

/-- A generated event is good exactly when nothing is held and the pending attempt is on
its side of the cut. -/
theorem good_generate (hv : v.Tracks header)
    (ht' : Target.Grown header v.target t' v.next v.next (.generated v.next)) :
    View.Good header { v with target := t' }
      ↔ v.Good header ∧ v.held = [] ∧ Uncrossed header v.group v.next := by
  have hpositions : t'.positions = v.target.positions ++ [v.next] := ht'.positions
  have hreached : v.target.targetCut.isSome ∨ header.sourceCut ≤ v.next →
      header.sourceCut ≤ v.next := by
    rintro (hsome | hle)
    · exact hv.target.reached hsome
    · exact hle
  have hafter : t'.After header ↔ v.target.After header := by
    rw [ht'.after, and_iff_left_iff_imp]
    intro _ h seq hseq
    rw [Origin.seqs, List.mem_singleton] at hseq
    exact hseq ▸ hreached h
  constructor
  · intro hgood
    have horder := hgood.order
    simp only [hpositions] at horder
    have hheld : v.held = [] := by
      cases hheld : v.held with
      | nil => rfl
      | cons e rest =>
        rw [hheld, List.append_assoc, List.pairwise_append] at horder
        have hle := (List.pairwise_cons.mp horder.2.1).1 e.seq List.mem_cons_self
        have hlt := hv.wellFormed.below e (by rw [hheld]; exact List.mem_cons_self)
        omega
    refine ⟨⟨?_, hgood.cites, hafter.mp hgood.after, ?_, ?_⟩, hheld, ?_⟩
    · rw [hheld] at horder ⊢
      simp only [List.map_nil, List.append_nil] at horder ⊢
      exact (List.pairwise_append.mp horder).1
    · simp [hheld]
    · intro g hg
      obtain ⟨hsides, hcut⟩ := hgood.group g hg
      exact ⟨hsides, fun hsome => hcut (ht'.some_iff.mpr (.inl hsome))⟩
    · intro g hg
      obtain ⟨_, hcut⟩ := hgood.group g hg
      have hstart := hv.wellFormed.start_lt hg
      constructor
      · intro hlt
        by_contra hge
        have hle := hcut (ht'.some_iff.mpr (.inr (Nat.le_of_not_lt hge)))
        omega
      · omega
  · rintro ⟨hgood, hheld, huncrossed⟩
    refine ⟨?_, hgood.cites, hafter.mpr hgood.after, ?_, ?_⟩
    · have horder := hgood.order
      rw [hheld] at horder ⊢
      simp only [hpositions, List.map_nil, List.append_nil, List.pairwise_append] at horder ⊢
      refine ⟨horder, List.pairwise_singleton _ _, ?_⟩
      intro a ha b hb
      rw [List.mem_singleton] at hb
      exact hb ▸ hv.positions_le ha
    · simp [hheld]
    · intro g hg
      obtain ⟨hsides, hcut⟩ := hgood.group g hg
      have hsame := huncrossed g hg
      refine ⟨hsides, fun hsome => ?_⟩
      rcases ht'.some_iff.mp hsome with hsome | hle
      · exact hcut hsome
      · omega

/-! ## Settling -/

theorem settle (hv : v.Tracks header) {g : AttemptGroup}
    (ht' : Target.Grown header v.target t' v.next g.lastChunkSeq (.attempt g.chunkSeqs)) :
    View.Tracks header { v with target := t', group := none } where
  wellFormed := ⟨nofun, hv.wellFormed.sorted, hv.wellFormed.below, nofun⟩
  target := ht'.tracks
  marked := ht'.marked
  images := by
    rw [ht'.images]
    simpa [Origin.image?] using hv.images
  sorted := hv.sorted
  below := hv.below

theorem good_settle (hv : v.Tracks header) {g : AttemptGroup} (hg : v.group = some g)
    (ht' : Target.Grown header v.target t' v.next g.lastChunkSeq (.attempt g.chunkSeqs)) :
    View.Good header { v with target := t', group := none } ↔ v.Good header := by
  have hwell := hv.wellFormed.group g hg
  have hpositions : t'.positions = v.target.positions := by
    simpa [Origin.position?] using ht'.positions
  have hlive : Origin.Live header (.attempt g.chunkSeqs) ↔ header.sourceCut ≤ g.start := by
    constructor
    · exact fun hall => hall g.start hwell.start_mem
    · exact fun hle seq hseq => Nat.le_trans hle (hwell.start_le hseq)
  have hgroup : (v.target.targetCut.isSome ∨ header.sourceCut ≤ g.lastChunkSeq →
      header.sourceCut ≤ g.start) ↔ GroupOk header v.target g := by
    have hle := hwell.start_le_last
    constructor
    · intro h
      refine ⟨?_, fun hsome => h (.inl hsome)⟩
      by_cases hlast : header.sourceCut ≤ g.lastChunkSeq
      · have hstart := h (.inr hlast)
        omega
      · omega
    · rintro ⟨hsides, hcut⟩ (hsome | hlast)
      · exact hcut hsome
      · omega
  constructor
  · intro hgood
    have hafter := ht'.after.mp hgood.after
    rw [hlive, hgroup] at hafter
    refine ⟨?_, hgood.cites, hafter.1, ?_, ?_⟩
    · have horder := hgood.order
      rwa [hpositions] at horder
    · exact fun hsome => hgood.held (ht'.some_iff.mpr (.inl hsome))
    · intro g' hg'
      rw [hg, Option.some.injEq] at hg'
      exact hg' ▸ hafter.2
  · intro hgood
    refine ⟨?_, hgood.cites, ?_, ?_, fun _ h => by cases h⟩
    · have horder := hgood.order
      rwa [← hpositions] at horder
    · rw [ht'.after, hlive, hgroup]
      exact ⟨hgood.after, hgood.group g hg⟩
    · intro hsome e he
      rcases ht'.some_iff.mp hsome with hsome | hle
      · exact hgood.held hsome e he
      · exact Nat.le_trans hle (Nat.le_of_lt (hv.wellFormed.behind g hg _ hwell.last_mem e he))

/-! ## Citation -/

variable {event : SessionEvent} {g : AttemptGroup} {t' : Target}

theorem message_signature (htype : event.type = .assistantMessage) (g : AttemptGroup) :
    signature (tagEndSeed header (messageEvent event g))
      = signature { event with sourceEventSeqs := none } := by
  rw [Target.tagEndSeed_signature, messageEvent_signature htype]

theorem cite (hv : v.Tracks header) (htype : event.type = .assistantMessage)
    (hseq : event.seq = v.next) (hheld : v.held = [])
    (ht' : Target.Grown header v.target t' v.next event.seq
      (.source (tagEndSeed header (messageEvent event g)) g.chunkSeqs)) :
    View.Tracks header { v with
      target := t'
      group := none
      arrived := v.arrived ++ [signature { event with sourceEventSeqs := none }]
      next := v.next + 1 } where
  wellFormed := by
    refine ⟨nofun, hv.wellFormed.sorted, ?_, nofun⟩
    simp [hheld]
  target := ht'.tracks.mono (Nat.le_succ _)
  marked := ht'.marked
  images := by
    have himages := hv.images
    rw [hheld, List.map_nil, List.append_nil] at himages ⊢
    rw [ht'.images]
    simp only [Origin.image?, message_signature htype, Option.toList_some]
    exact himages.append_right _
  sorted := (@arrive header v { event with sourceEventSeqs := none } hv hseq).sorted
  below := (@arrive header v { event with sourceEventSeqs := none } hv hseq).below

theorem good_cite (hv : v.Tracks header) (htype : event.type = .assistantMessage)
    (hseq : event.seq = v.next) (hheld : v.held = []) (hg : v.group = some g)
    (hcut : g.start < header.sourceCut ↔ event.seq < header.sourceCut)
    (ht' : Target.Grown header v.target t' v.next event.seq
      (.source (tagEndSeed header (messageEvent event g)) g.chunkSeqs)) :
    View.Good header { v with
      target := t'
      group := none
      arrived := v.arrived ++ [signature { event with sourceEventSeqs := none }]
      next := v.next + 1 } ↔ v.Good header ∧ ¬ CitesItself { event with sourceEventSeqs := none } := by
  have hwell := hv.wellFormed.group g hg
  have htagged : (tagEndSeed header (messageEvent event g)).seq = event.seq :=
    congrArg Prod.fst (message_signature htype g)
  have hpositions : t'.positions = v.target.positions ++ [event.seq] := by
    rw [ht'.positions]
    simp [Origin.position?, htagged]
  -- the message and its chunks lie on the side of the cut of the message
  have hafter : t'.After header ↔ v.target.After header := by
    rw [ht'.after, and_iff_left_iff_imp]
    intro _ h seq hmem
    have hreached : header.sourceCut ≤ event.seq := by
      rcases h with hsome | hle
      · rw [hseq]
        exact hv.target.reached hsome
      · exact hle
    rw [Origin.seqs, htagged] at hmem
    rcases List.mem_cons.mp hmem with rfl | hmem
    · exact hreached
    · have hstart := hwell.start_le hmem
      omega
  have hgroup : GroupOk header v.target g := by
    have hle := hwell.start_le_last
    have hlt := hwell.last_lt
    refine ⟨?_, fun hsome => ?_⟩
    · omega
    · have hreached := hv.target.reached hsome
      omega
  have hcites : (∀ a ∈ v.arrived ++ [signature { event with sourceEventSeqs := none }],
      some (.nat a.1) ∉ a.2) ↔ (∀ a ∈ v.arrived, some (.nat a.1) ∉ a.2) ∧
        ¬ CitesItself { event with sourceEventSeqs := none } := by
    simp only [List.forall_mem_append, List.forall_mem_singleton]
    exact Iff.rfl
  constructor
  · intro hgood
    have hsplit := hcites.mp hgood.cites
    refine ⟨⟨?_, hsplit.1, hafter.mp hgood.after, ?_, ?_⟩, hsplit.2⟩
    · have horder := hgood.order
      simp only [hpositions, hheld, List.map_nil, List.append_nil] at horder ⊢
      exact (List.pairwise_append.mp horder).1
    · simp [hheld]
    · intro g' hg'
      rw [hg, Option.some.injEq] at hg'
      exact hg' ▸ hgroup
  · rintro ⟨hgood, hself⟩
    refine ⟨?_, hcites.mpr ⟨hgood.cites, hself⟩, hafter.mpr hgood.after, ?_, fun _ h => by cases h⟩
    · have horder := hgood.order
      simp only [hpositions, hheld, List.map_nil, List.append_nil] at horder ⊢
      rw [List.pairwise_append]
      refine ⟨horder, List.pairwise_singleton _ _, ?_⟩
      intro a ha b hb
      rw [List.mem_singleton] at hb
      rw [hb, hseq]
      exact hv.positions_le ha
    · simp [hheld]

/-! ## Chunks -/

/-- Chunks join the pending attempt, or open one. -/
theorem join (hv : v.Tracks header) {base : AttemptGroup} {turn step : Coordinate} {count : ℕ}
    (hheld : v.held = []) (hjoin : joinGroup v.group turn step = .ok base)
    (hextends : AttemptGroup.Extends base g v.next count) (hcount : 0 < count) :
    View.Tracks header { v with group := some g, next := v.next + count } where
  wellFormed := hv.wellFormed.join hheld
    (hextends.wellFormed hcount (joinGroup_wellFormed hjoin hv.wellFormed.group))
  target := hv.target.mono (Nat.le_add_right _ _)
  marked := hv.marked
  images := hv.images
  sorted := hv.sorted
  below := fun a ha => Nat.lt_of_lt_of_le (hv.below a ha) (Nat.le_add_right _ _)

theorem good_join (hv : v.Tracks header) {base : AttemptGroup} {turn step : Coordinate} {count : ℕ}
    (hheld : v.held = []) (hjoin : joinGroup v.group turn step = .ok base)
    (hextends : AttemptGroup.Extends base g v.next count) (hcount : 0 < count)
    (hsides : v.next < header.sourceCut ↔ v.next + count - 1 < header.sourceCut) :
    View.Good header { v with group := some g, next := v.next + count }
      ↔ v.Good header ∧ Uncrossed header v.group v.next := by
  have hstart : g.start = base.first?.getD v.next := by
    simp [AttemptGroup.start, hextends.first?]
  have hlast := hextends.last
  have hgroup : GroupOk header v.target g
      ↔ (∀ g', v.group = some g' → GroupOk header v.target g') ∧
        Uncrossed header v.group v.next := by
    rcases joinGroup_ok hjoin with ⟨hpending, _⟩ | ⟨hpending, hnew⟩
    · have hwell := hv.wellFormed.group base hpending
      have hle := hwell.start_le_last
      have hlt := hwell.last_lt
      rw [hwell.first?_eq, Option.getD_some] at hstart
      simp only [hpending, Option.some.injEq, forall_eq', uncrossed_some, GroupOk, hstart, hlast]
      constructor
      · rintro ⟨hsame, hcut⟩
        refine ⟨⟨?_, hcut⟩, ?_⟩ <;> omega
      · rintro ⟨⟨_, hcut⟩, huncrossed⟩
        refine ⟨?_, hcut⟩
        omega
    · rw [hnew, AttemptGroup.attemptGroup_first?, Option.getD_none] at hstart
      have hreached := hv.target.reached
      simp only [hpending, uncrossed_none, and_true, GroupOk, hstart, hlast]
      exact ⟨fun _ _ h => (Option.some_ne_none _ h.symm).elim, fun _ => ⟨hsides, hreached⟩⟩
  constructor
  · intro hgood
    have hsplit := hgroup.mp (hgood.group g rfl)
    refine ⟨⟨hgood.order, hgood.cites, hgood.after, ?_, hsplit.1⟩, hsplit.2⟩
    simp [hheld]
  · rintro ⟨hgood, huncrossed⟩
    refine ⟨hgood.order, hgood.cites, hgood.after, ?_, ?_⟩
    · simp [hheld]
    · intro g' hg'
      cases hg'
      exact hgroup.mpr ⟨hgood.group, huncrossed⟩

/-! ## Moves -/

/-- Every move keeps a view tracked, and keeps it good exactly when it is allowed. -/
theorem move (hv : v.Tracks header) {m : Move} (hmove : v.move header m = .ok v') :
    v'.Tracks header ∧ (v'.Good header ↔ v.Good header ∧ Allowed header v m) := by
  cases m with
  | arrive event =>
    obtain ⟨_, hnext, h⟩ := bind_ok hmove
    cases h
    have hseq := assertNext_ok hnext
    exact ⟨hv.arrive hseq, hv.good_arrive hseq⟩
  | release position =>
    simp only [View.move] at hmove
    split at hmove
    · cases hmove
    · next event hevent =>
        obtain ⟨t', ht', h⟩ := bind_ok hmove
        cases h
        have hlt := hv.wellFormed.below event (List.mem_of_getElem? hevent)
        have hgrown := hv.target.emitImage hv.marked (Nat.le_of_lt hlt) (by simp) ht'
        refine ⟨hv.release hevent hgrown, (hv.good_release hevent hgrown).trans ?_⟩
        simp [Allowed, hevent]
  | generate event =>
    simp only [View.move] at hmove
    split at hmove
    · next hevent =>
        obtain ⟨t', ht', h⟩ := bind_ok hmove
        cases h
        have hgrown := hv.target.emitGenerated hv.marked (Nat.le_refl _) hevent.1 hevent.2 rfl
          (by simp [Origin.seqs]) (by simp [Origin.seqs]) (by simp [Origin.position?]) ht'
        exact ⟨hv.generate hgrown, hv.good_generate hgrown⟩
    · cases hmove
  | settle =>
    simp only [View.move] at hmove
    split at hmove
    · cases hmove
    · next g hg =>
        obtain ⟨t', ht', h⟩ := bind_ok hmove
        cases h
        have hwell := hv.wellFormed.group g hg
        have hgrown : Target.Grown header v.target t' v.next g.lastChunkSeq
            (.attempt g.chunkSeqs) :=
          hv.target.emitGenerated hv.marked (Nat.le_of_lt hwell.last_lt) rfl
            (by simp [attemptEvent]) rfl hwell.nonempty (fun seq hseq => hwell.le_last hseq)
            (fun _ h => by cases h) ht'
        refine ⟨hv.settle hgrown, (hv.good_settle hg hgrown).trans ?_⟩
        simp [Allowed]
  | cite event =>
    simp only [View.move] at hmove
    split at hmove
    · next g hg hheld =>
        obtain ⟨_, hnext, h⟩ := bind_ok hmove
        obtain ⟨_, hmessage, h⟩ := bind_ok h
        obtain ⟨_, hcut, h⟩ := bind_ok h
        obtain ⟨t', ht', h⟩ := bind_ok h
        cases h
        have hseq := assertNext_ok hnext
        have htype := assertMessage_ok hmessage
        have hwell := hv.wellFormed.group g hg
        rw [assertAttemptCut, hwell.first?_eq] at hcut
        have hsides := assertAttemptRange_ok_iff.mp hcut
        have hbelow : ∀ seq ∈ g.chunkSeqs, seq ≤ event.seq := by
          intro seq hmem
          rw [hseq]
          exact Nat.le_of_lt (hwell.below seq hmem)
        have hgrown : Target.Grown header v.target t' v.next event.seq
            (.source (tagEndSeed header (messageEvent event g)) g.chunkSeqs) :=
          @Target.Tracks.emitImage header v.target t' v.next hv.target hv.marked g.chunkSeqs
            (messageEvent event g) (Nat.le_of_eq hseq) hbelow ht'
        exact ⟨hv.cite htype hseq hheld hgrown,
          hv.good_cite htype hseq hheld hg hsides hgrown⟩
    · cases hmove
  | chunk event =>
    simp only [View.move] at hmove
    split at hmove
    · next hheld =>
        obtain ⟨_, hnext, h⟩ := bind_ok hmove
        obtain ⟨turn, _, h⟩ := bind_ok h
        obtain ⟨step, _, h⟩ := bind_ok h
        obtain ⟨base, hjoin, h⟩ := bind_ok h
        obtain ⟨_, hcut, h⟩ := bind_ok h
        obtain ⟨g, hpush, h⟩ := bind_ok h
        cases h
        have hextends := AttemptGroup.pushChunk_extends hpush
        rw [assertNext_ok hnext] at hextends hcut
        have hgood := hv.good_join hheld hjoin hextends Nat.one_pos (by simp)
        refine ⟨hv.join hheld hjoin hextends Nat.one_pos, hgood.trans ?_⟩
        have huncrossed := hv.wellFormed.uncrossed_of_cut hjoin hcut
        simp [Allowed, huncrossed]
    · cases hmove
  | chunkRun run =>
    simp only [View.move] at hmove
    split at hmove
    · next hheld =>
        obtain ⟨_, hnext, h⟩ := bind_ok hmove
        obtain ⟨base, hjoin, h⟩ := bind_ok h
        obtain ⟨_, hrange, h⟩ := bind_ok h
        cases h
        have hextends := AttemptGroup.appendRun_extends base run
        have hseq := assertNext_ok hnext
        have hsides := assertAttemptRange_ok_iff.mp hrange
        rw [ReleasedAssistantChunkRun.lastSeq] at hsides
        rw [hseq] at hextends hsides
        have hcount : 0 < run.eventCount := List.length_pos_of_ne_nil run.members_ne
        have hgood := hv.good_join hheld hjoin hextends hcount hsides
        refine ⟨hv.join hheld hjoin hextends hcount, hgood.trans ?_⟩
        rw [Allowed, hseq]
    · cases hmove

theorem path (hv : v.Tracks header) {P : Prop} (hpath : Moves header v v' P) :
    v'.Tracks header ∧ (v'.Good header ↔ v.Good header ∧ P) := by
  obtain ⟨ms, hms, hP⟩ := hpath
  rw [← hP]
  exact foldlM_iff_guarded (fun _ _ _ hs hmove => (move hs hmove).1)
    (fun _ _ _ hs hmove => (move hs hmove).2) hv hms

end View.Tracks

theorem tracks_initial (header : ReleasedV1Header) :
    ((initial header).view [] 0).Tracks header where
  wellFormed := View.WellFormed.initial
  target :=
    { targetSeq := rfl
      seqs := by simp [initial, State.view]
      mapping := by simp [initial, State.view]
      references := by simp [initial, State.view]
      positions := by simp [initial, State.view]
      unseeded := by
        intro hseeded
        simp [initial, State.view, hseeded]
      reached := by
        intro hsome
        cases hseeded : header.isSeeded with
        | true => simp [initial, State.view, hseeded] at hsome
        | false => exact Nat.le_of_eq (header.unseeded hseeded)
      cut_le := by
        intro cut hcut
        simp only [initial, State.view] at hcut
        split at hcut
        · cases hcut
        · cases hcut
          exact Nat.zero_le _
      inherited := by simp [initial, State.view]
      marker := by simp [initial, State.view] }
  marked := by
    intro hseeded cut hcut
    simp [initial, State.view, hseeded] at hcut
  images := .refl _
  sorted := .nil
  below := by simp [State.view]

theorem good_initial (header : ReleasedV1Header) :
    ((initial header).view [] 0).Good header where
  order := .nil
  cites := by simp [State.view]
  after := by
    intro i x hx
    simp [initial, State.view] at hx
  held := by simp [State.view, State.held, initial]
  group := nofun

end V1ToV2

end TianmaCoder
