import TianmaCoder.Format.V1ToV2Moves

/-!
# Emission in the v1-to-v2 stage

What one emission does to the target: the cut is marked when a source position at or after
the source cut is reached, the mapping gains the image of a source event, and one event is
appended whose references are renamed through the mapping.

## Main definitions

* `Names` — a reference of the target that names the image of what the source named.
* `Target.Tracks` — what holds of a target, whatever was emitted.
* `Target.After` — nothing from before the source cut is emitted at or after the cut.

## Main results

* `Target.Tracks.emitImage`, `Target.Tracks.emitGenerated`.
-/

namespace TianmaCoder

open Checked

/-- A property of all indexed members of a list extended by one. -/
theorem forall_getElem?_concat {α : Type*} {xs : List α} {x : α} {P : ℕ → α → Prop} :
    (∀ i y, (xs ++ [x])[i]? = some y → P i y)
      ↔ (∀ i y, xs[i]? = some y → P i y) ∧ P xs.length x := by
  constructor
  · intro h
    refine ⟨fun i y hy => h i y ?_, h _ x List.getElem?_concat_length⟩
    have hlt := (List.getElem?_eq_some_iff.mp hy).1
    rw [List.getElem?_append_left hlt, hy]
  · rintro ⟨hxs, hx⟩ i y hy
    rcases Nat.lt_trichotomy i xs.length with hlt | heq | hgt
    · rw [List.getElem?_append_left hlt] at hy
      exact hxs i y hy
    · subst heq
      rw [List.getElem?_concat_length, Option.some.injEq] at hy
      exact hy ▸ hx
    · have hout : (xs ++ [x])[i]? = none := by
        rw [List.getElem?_eq_none_iff, List.length_append, List.length_singleton]
        omega
      rw [hout] at hy
      cases hy

namespace V1ToV2

/-! ## Origins -/

namespace Origin

/-- The source seqs a target event was made from. -/
def seqs : Origin → List ℕ
  | source event chunkSeqs => event.seq :: chunkSeqs
  | generated seq => [seq]
  | attempt chunkSeqs => chunkSeqs
  | marker => []

/-- Where a target event that was not made of chunks alone stands in the source. -/
def position? : Origin → Option ℕ
  | source event _ => some event.seq
  | generated seq => some seq
  | attempt _ | marker => none

/-- The source event a target event is the image of. -/
def image? : Origin → Option (ℕ × List (Option Json))
  | source event _ => some (signature event)
  | _ => none

/-- The references the source declared. -/
def declared : Origin → List (Option Json)
  | source event _ => references event
  | _ => []

end Origin

/-- The source seq whose image is at a target position. -/
def imageSeq (emitted : List Emitted) (position : ℕ) : Option ℕ :=
  (emitted[position]?.bind (·.origin.image?)).map Prod.fst

/-- `r'` names the image, emitted before `bound`, of what `r` names. -/
def Names (emitted : List Emitted) (bound : ℕ) (r r' : Option Json) : Prop :=
  ∃ seq position, r = some (.nat seq) ∧ r' = some (.nat position) ∧ position < bound ∧
    imageSeq emitted position = some seq

variable {position : ℕ} {emitted : List Emitted}

theorem imageSeq_append {seq : ℕ} (h : imageSeq emitted position = some seq) (more : List Emitted) :
    imageSeq (emitted ++ more) position = some seq := by
  have hlt : position < emitted.length := by
    by_contra hge
    rw [imageSeq, List.getElem?_eq_none_iff.mpr (Nat.le_of_not_lt hge)] at h
    cases h
  rw [imageSeq, List.getElem?_append_left hlt]
  exact h

theorem imageSeq_lt {seq : ℕ} (h : imageSeq emitted position = some seq) :
    position < emitted.length := by
  by_contra hge
  rw [imageSeq, List.getElem?_eq_none_iff.mpr (Nat.le_of_not_lt hge)] at h
  cases h

theorem Names.append {bound : ℕ} {r r' : Option Json} (h : Names emitted bound r r')
    (more : List Emitted) : Names (emitted ++ more) bound r r' := by
  obtain ⟨seq, position, hr, hr', hlt, himage⟩ := h
  exact ⟨seq, position, hr, hr', hlt, imageSeq_append himage more⟩

/-! ## Targets -/

/-- The marker of the inherited cut. -/
def InheritedEndSeed (event : SessionEvent) : Prop :=
  event.type = .sessionEndSeed ∧ event.data = .obj [("inherited", .bool true)]

variable (header : ReleasedV1Header)

/-- Made of what lies before the source cut. -/
def Origin.Inherited (origin : Origin) : Prop :=
  origin.seqs ≠ [] ∧ ∀ seq ∈ origin.seqs, seq < header.sourceCut

/-- Made of what does not lie before the source cut. -/
def Origin.Live (origin : Origin) : Prop := ∀ seq ∈ origin.seqs, header.sourceCut ≤ seq

namespace Target

/-- The position is before the cut of the target, if that is known. -/
def Before (t : Target) (position : ℕ) : Prop := ∀ cut, t.targetCut = some cut → position < cut

/-- What holds of a target while the source seqs before `next` are consumed. -/
structure Tracks (t : Target) (next : ℕ) : Prop where
  targetSeq : t.targetSeq = t.emitted.length
  seqs : ∀ (i : ℕ) (x : Emitted), t.emitted[i]? = some x → x.event.seq = i
  mapping : ∀ seq position, t.mapping.lookup seq = some position →
    imageSeq t.emitted position = some seq
  references : ∀ (i : ℕ) (x : Emitted), t.emitted[i]? = some x →
    List.Forall₂ (Names t.emitted (i + 1)) x.origin.declared (references x.event)
  positions : ∀ (i : ℕ) (x : Emitted), t.emitted[i]? = some x → ∀ p, x.origin.position? = some p → p ≤ next
  unseeded : header.isSeeded = false → t.targetCut = some 0
  reached : t.targetCut.isSome → header.sourceCut ≤ next
  cut_le : ∀ cut, t.targetCut = some cut → cut ≤ t.emitted.length
  inherited : ∀ (i : ℕ) (x : Emitted), t.emitted[i]? = some x → t.Before i → x.origin.Inherited header
  marker : ∀ (i : ℕ) (x : Emitted), t.emitted[i]? = some x → header.isSeeded = true → t.targetCut = some i →
    InheritedEndSeed x.event

/-- The cut of the target is emitted. -/
def Marked (t : Target) : Prop :=
  header.isSeeded = true → ∀ cut, t.targetCut = some cut → cut < t.emitted.length

/-- Nothing from before the source cut is emitted at or after the cut. -/
def After (t : Target) : Prop :=
  ∀ (i : ℕ) (x : Emitted), t.emitted[i]? = some x → ¬ t.Before i → x.origin.Live header

/-- The source positions of what is emitted. -/
def positions (t : Target) : List ℕ := t.emitted.filterMap (·.origin.position?)

/-- The source events whose images are emitted. -/
def images (t : Target) : List (ℕ × List (Option Json)) := t.emitted.filterMap (·.origin.image?)

/-- Append an event under a mapping. -/
def push (t : Target) (x : Emitted) (mapping : OrderedMap ℕ ℕ) : Target :=
  ⟨mapping, t.targetSeq + 1, t.targetCut, t.emitted ++ [x]⟩

variable {header} {t t' : Target} {next : ℕ}

theorem not_before_iff : ¬ t.Before position ↔ ∃ cut, t.targetCut = some cut ∧ cut ≤ position := by
  simp [Before]

/-- The next position is at or after a known cut. -/
theorem Tracks.before_length (ht : t.Tracks header next) :
    t.Before t.emitted.length ↔ t.targetCut = none := by
  constructor
  · intro hbefore
    cases hcut : t.targetCut with
    | none => rfl
    | some cut =>
      have hlt := hbefore cut hcut
      have hle := ht.cut_le cut hcut
      omega
  · intro hnone cut hcut
    rw [hnone] at hcut
    cases hcut

/-- What appending one event needs. -/
structure Appends (header : ReleasedV1Header) (t : Target) (x : Emitted)
    (mapping : OrderedMap ℕ ℕ) (next : ℕ) : Prop where
  seq : x.event.seq = t.targetSeq
  mapping : ∀ seq position, mapping.lookup seq = some position →
    imageSeq (t.emitted ++ [x]) position = some seq
  references : List.Forall₂ (Names (t.emitted ++ [x]) (t.emitted.length + 1)) x.origin.declared
    (V1ToV2.references x.event)
  position : ∀ p, x.origin.position? = some p → p ≤ next
  inherited : t.targetCut = none → x.origin.Inherited header
  marker : header.isSeeded = true → t.targetCut = some t.emitted.length → InheritedEndSeed x.event

theorem Tracks.push (ht : t.Tracks header next) {x : Emitted} {mapping : OrderedMap ℕ ℕ}
    (hx : Appends header t x mapping next) : (t.push x mapping).Tracks header next where
  targetSeq := by simp [Target.push, ht.targetSeq]
  seqs := forall_getElem?_concat.mpr ⟨ht.seqs, hx.seq.trans ht.targetSeq⟩
  mapping := hx.mapping
  references := forall_getElem?_concat.mpr
    ⟨fun i y hy => (ht.references i y hy).imp fun _ _ hnames => hnames.append [x], hx.references⟩
  positions := forall_getElem?_concat.mpr ⟨ht.positions, hx.position⟩
  unseeded := ht.unseeded
  reached := ht.reached
  cut_le := by
    intro cut hcut
    have hle := ht.cut_le cut hcut
    simp only [Target.push, List.length_append]
    omega
  inherited := forall_getElem?_concat.mpr
    ⟨ht.inherited, fun hbefore => hx.inherited (ht.before_length.mp hbefore)⟩
  marker := forall_getElem?_concat.mpr ⟨ht.marker, hx.marker⟩

theorem Tracks.after_push (ht : t.Tracks header next) (x : Emitted) (mapping : OrderedMap ℕ ℕ) :
    (t.push x mapping).After header
      ↔ t.After header ∧ (t.targetCut.isSome → x.origin.Live header) := by
  refine forall_getElem?_concat.trans (and_congr Iff.rfl ?_)
  have hbefore := ht.before_length
  rw [Option.isSome_iff_ne_none]
  exact imp_congr (not_congr hbefore) Iff.rfl

theorem Tracks.marked_push (ht : t.Tracks header next) (x : Emitted) (mapping : OrderedMap ℕ ℕ) :
    (t.push x mapping).Marked header := by
  intro _ cut hcut
  have hle := ht.cut_le cut hcut
  simp only [Target.push, List.length_append, List.length_singleton]
  omega

theorem Tracks.mono (ht : t.Tracks header next) {later : ℕ} (h : next ≤ later) :
    t.Tracks header later where
  targetSeq := ht.targetSeq
  seqs := ht.seqs
  mapping := ht.mapping
  references := ht.references
  positions := fun i x hx p hp => Nat.le_trans (ht.positions i x hx p hp) h
  unseeded := ht.unseeded
  reached := fun hsome => Nat.le_trans (ht.reached hsome) h
  cut_le := ht.cut_le
  inherited := ht.inherited
  marker := ht.marker

/-! ## The cut -/

/-- The target with its cut marked at the next position. -/
def mark (t : Target) : Target := { t with targetCut := some t.targetSeq }

theorem after_of_none (hnone : t.targetCut = none) : t.After header := by
  intro i x _ hnot
  obtain ⟨cut, hcut, _⟩ := not_before_iff.mp hnot
  rw [hnone] at hcut
  cases hcut

theorem Tracks.lt_of_getElem? {i : ℕ} {x : Emitted} (ht : t.Tracks header next)
    (hx : t.emitted[i]? = some x) : i < t.targetSeq := by
  rw [ht.targetSeq]
  exact (List.getElem?_eq_some_iff.mp hx).1

theorem Tracks.mark (ht : t.Tracks header next) (hseeded : header.isSeeded = true)
    (hnone : t.targetCut = none) (hreached : header.sourceCut ≤ next) :
    t.mark.Tracks header next where
  targetSeq := ht.targetSeq
  seqs := ht.seqs
  mapping := ht.mapping
  references := ht.references
  positions := ht.positions
  unseeded := by simp [hseeded]
  reached := fun _ => hreached
  cut_le := by
    intro cut hcut
    cases hcut
    exact Nat.le_of_eq ht.targetSeq
  inherited := by
    intro i x hx _
    refine ht.inherited i x hx fun cut hcut => ?_
    rw [hnone] at hcut
    cases hcut
  marker := by
    intro i x hx _ hcut
    have hlt := ht.lt_of_getElem? hx
    cases hcut
    exact absurd hlt (Nat.lt_irrefl _)

theorem Tracks.after_mark (ht : t.Tracks header next) : t.mark.After header := by
  intro i x hx hnot
  obtain ⟨cut, hcut, hle⟩ := not_before_iff.mp hnot
  have hlt := ht.lt_of_getElem? hx
  cases hcut
  omega

/-- What ensuring the cut does before an emission at `position`. -/
structure Opened (header : ReleasedV1Header) (t t' : Target) (next position : ℕ)
    (type : EventType) : Prop where
  tracks : t'.Tracks header next
  none : t'.targetCut = none → position < header.sourceCut
  some_iff : t'.targetCut.isSome ↔ t.targetCut.isSome ∨ header.sourceCut ≤ position
  first : header.isSeeded = true → t'.targetCut = some t'.emitted.length →
    position = header.sourceCut ∧ type = .sessionEndSeed
  mapping : t'.mapping = t.mapping
  images : t'.images = t.images
  positions : t'.positions = t.positions
  after : t'.After header ↔ t.After header

theorem Tracks.appends_marker (ht : t.Tracks header next) {cut : ℕ}
    (hcut : t.targetCut = some cut) (time : ℤ) :
    Appends header t ⟨.marker, endSeed t.targetSeq time⟩ t.mapping next where
  seq := rfl
  mapping := fun seq position hlookup => imageSeq_append (ht.mapping seq position hlookup) _
  references := .nil
  position := nofun
  inherited := by simp [hcut]
  marker := fun _ _ => ⟨rfl, rfl⟩

theorem Tracks.opened (ht : t.Tracks header next) (hmarked : t.Marked header)
    (hposition : position ≤ next) (time : ℤ) (type : EventType) :
    Opened header t (ensureTargetCut header t position time type) next position type := by
  unfold ensureTargetCut
  split
  · next hplain =>
      have hsome : header.isSeeded = true → t.targetCut.isSome ∨ position < header.sourceCut := by
        intro hseeded
        simpa [hseeded] using hplain
      have hunseeded : header.isSeeded = false → t.targetCut.isSome := by
        intro hfalse
        simp [ht.unseeded hfalse]
      constructor
      · exact ht
      · intro hnone
        cases hseeded : header.isSeeded with
        | false => simp [hnone] at hunseeded; simp [hunseeded] at hseeded
        | true => simpa [hnone] using hsome hseeded
      · cases hseeded : header.isSeeded with
        | false => simp [hunseeded hseeded]
        | true =>
          rcases hsome hseeded with hsome | hlt
          · simp [hsome]
          · constructor
            · exact .inl
            · rintro (hsome | hle)
              · exact hsome
              · omega
      · intro hseeded hcut
        exact absurd (hmarked hseeded _ hcut) (Nat.lt_irrefl _)
      · rfl
      · rfl
      · rfl
      · exact Iff.rfl
  · next hopens =>
      simp only [Bool.or_eq_true, Bool.not_eq_true', decide_eq_true_eq, not_or,
        Bool.not_eq_false, Option.isSome_iff_ne_none, ne_eq, not_not, Nat.not_lt] at hopens
      obtain ⟨⟨hseeded, hnone⟩, hreached⟩ := hopens
      have hmark := ht.mark hseeded hnone (Nat.le_trans hreached hposition)
      have hafter : t.mark.After header ↔ t.After header :=
        ⟨fun _ => after_of_none hnone, fun _ => ht.after_mark⟩
      split
      · next hfirst =>
          refine ⟨hmark, nofun, ?_, fun _ _ => hfirst, rfl, rfl, rfl, hafter⟩
          simp [hreached]
      · have hpush := hmark.push (hmark.appends_marker rfl time)
        refine ⟨hpush, nofun, ?_, ?_, rfl, ?_, ?_, ?_⟩
        · simp [hreached, Target.emit]
        · intro _ hcut
          have hlength := ht.targetSeq
          simp [Target.emit] at hcut
          omega
        · simp [Target.images, Target.emit, Origin.image?]
        · simp [Target.positions, Target.emit, Origin.position?]
        · refine (hmark.after_push _ _).trans ?_
          rw [hafter]
          simp [Origin.Live, Origin.seqs]

/-! ## Emission -/

/-- What one emission at `position` does to a target. -/
structure Grown (header : ReleasedV1Header) (t t' : Target) (next position : ℕ)
    (origin : Origin) : Prop where
  tracks : t'.Tracks header next
  marked : t'.Marked header
  images : t'.images = t.images ++ origin.image?.toList
  positions : t'.positions = t.positions ++ origin.position?.toList
  some_iff : t'.targetCut.isSome ↔ t.targetCut.isSome ∨ header.sourceCut ≤ position
  after : t'.After header
    ↔ t.After header ∧ (t.targetCut.isSome ∨ header.sourceCut ≤ position → origin.Live header)

theorem Opened.push {opened : Target} {type : EventType}
    (h : Opened header t opened next position type) {x : Emitted} {mapping : OrderedMap ℕ ℕ}
    (hx : Appends header opened x mapping next) :
    Grown header t (opened.push x mapping) next position x.origin where
  tracks := h.tracks.push hx
  marked := h.tracks.marked_push x mapping
  images := by
    have himages := h.images
    simp only [Target.images] at himages ⊢
    simp only [Target.push, List.filterMap_append, himages]
    cases horigin : x.origin.image? <;> simp [horigin]
  positions := by
    have hpositions := h.positions
    simp only [Target.positions] at hpositions ⊢
    simp only [Target.push, List.filterMap_append, hpositions]
    cases horigin : x.origin.position? <;> simp [horigin]
  some_iff := h.some_iff
  after := by rw [h.tracks.after_push, h.after, h.some_iff]

theorem tagEndSeed_type (event : SessionEvent) : (tagEndSeed header event).type = event.type := by
  unfold tagEndSeed
  split <;> rfl

theorem tagEndSeed_signature (event : SessionEvent) :
    signature (tagEndSeed header event) = signature event := by
  unfold tagEndSeed
  split
  · next htag => simp [signature, references, htag.2.2, payloadReferences]
  · rfl

/-- The image of a source event, with the chunks it takes. -/
theorem Tracks.emitImage (ht : t.Tracks header next) (hmarked : t.Marked header)
    {chunkSeqs : List ℕ} {event : SessionEvent} (hseq : event.seq ≤ next)
    (hchunks : ∀ seq ∈ chunkSeqs, seq ≤ event.seq)
    (h : t.emitImage header chunkSeqs event = .ok t') :
    Grown header t t' next event.seq (.source (tagEndSeed header event) chunkSeqs) := by
  obtain ⟨target, htarget, hpure⟩ := bind_ok h
  cases hpure
  have hopened := ht.opened hmarked hseq event.time (tagEndSeed header event).type
  obtain ⟨hnumber, htype, _, hdata, hrenames⟩ := remapReferences_ok htarget
  have hsignature : signature (tagEndSeed header event) = signature event :=
    tagEndSeed_signature event
  have htagged : (tagEndSeed header event).seq = event.seq := congrArg Prod.fst hsignature
  have hself : imageSeq
      ((ensureTargetCut header t event.seq event.time (tagEndSeed header event).type).emitted
        ++ [⟨.source (tagEndSeed header event) chunkSeqs, target⟩])
      (ensureTargetCut header t event.seq event.time (tagEndSeed header event).type).targetSeq
      = some event.seq := by
    rw [hopened.tracks.targetSeq, imageSeq, List.getElem?_concat_length]
    exact congrArg some htagged
  have hmapping : ∀ seq position,
      List.lookup seq (OrderedMap.set event.seq
        (ensureTargetCut header t event.seq event.time (tagEndSeed header event).type).targetSeq
        (ensureTargetCut header t event.seq event.time (tagEndSeed header event).type).mapping)
        = some position →
      imageSeq
        ((ensureTargetCut header t event.seq event.time (tagEndSeed header event).type).emitted
          ++ [⟨.source (tagEndSeed header event) chunkSeqs, target⟩]) position = some seq := by
    intro seq position hlookup
    rw [OrderedMap.lookup_set] at hlookup
    split at hlookup
    · next heq =>
        cases hlookup
        rw [heq]
        exact hself
    · exact imageSeq_append (hopened.tracks.mapping seq position hlookup) _
  refine hopened.push ⟨hnumber, hmapping, ?_, ?_, ?_, ?_⟩
  · refine hrenames.imp ?_
    rintro r r' ⟨seq, position, hr, hlookup, hr'⟩
    have himage := hmapping seq position hlookup
    have hlt := imageSeq_lt himage
    rw [List.length_append, List.length_singleton] at hlt
    exact ⟨seq, position, hr, hr', hlt, himage⟩
  · intro p hp
    cases hp
    rw [htagged]
    exact hseq
  · intro hnone
    have hbefore := hopened.none hnone
    refine ⟨List.cons_ne_nil _ _, ?_⟩
    intro seq hmem
    rcases List.mem_cons.mp hmem with rfl | hmem
    · rw [htagged]
      exact hbefore
    · exact Nat.lt_of_le_of_lt (hchunks seq hmem) hbefore
  · intro hseeded hcut
    obtain ⟨hposition, hend⟩ := hopened.first hseeded hcut
    have hnot : declaresReferences (tagEndSeed header event).type = false := by rw [hend]; rfl
    rw [remapPayloadReferences_of_not_declares hnot, Except.ok.injEq] at hdata
    refine ⟨htype.trans hend, hdata.symm.trans ?_⟩
    rw [tagEndSeed_type] at hend
    simp [tagEndSeed, hseeded, hposition, hend]

theorem Tracks.emitGenerated (ht : t.Tracks header next) (hmarked : t.Marked header)
    {origin : Origin} {event : SessionEvent} (hposition : position ≤ next)
    (hreferences : V1ToV2.references event = []) (htype : event.type ≠ .sessionEndSeed)
    (hdeclared : origin.declared = []) (hne : origin.seqs ≠ [])
    (hseqs : ∀ seq ∈ origin.seqs, seq ≤ position)
    (horigin : ∀ p, origin.position? = some p → p ≤ next)
    (h : t.emitGenerated header position origin event = .ok t') :
    Grown header t t' next position origin := by
  obtain ⟨target, htarget, hpure⟩ := bind_ok h
  cases hpure
  have hopened := ht.opened hmarked hposition event.time event.type
  obtain ⟨hnumber, _, _, _, hrenames⟩ := remapReferences_ok htarget
  rw [hreferences] at hrenames
  have hnil : V1ToV2.references target = [] := List.forall₂_nil_left_iff.mp hrenames
  refine hopened.push ⟨hnumber, ?_, ?_, horigin, ?_, ?_⟩
  · exact fun seq position hlookup =>
      imageSeq_append (hopened.tracks.mapping seq position hlookup) _
  · rw [hdeclared, hnil]
    exact .nil
  · intro hnone
    have hbefore := hopened.none hnone
    exact ⟨hne, fun seq hmem => Nat.lt_of_le_of_lt (hseqs seq hmem) hbefore⟩
  · intro hseeded hcut
    exact absurd (hopened.first hseeded hcut).2 htype

end Target

end V1ToV2

end TianmaCoder
