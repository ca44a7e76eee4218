import TianmaCoder.Format.V1ToV2

/-!
# References of the v1-to-v2 stage

The sequence references an event declares, and what the remapping makes of them: each is
renamed through the mapping, in place.

## Main definitions

* `V1ToV2.references` — the declared references of an event.
* `V1ToV2.Renames` — one reference renamed through a mapping.

## Main results

* `V1ToV2.remapReferences_ok` — an accepted remapping renames every reference.
-/

namespace TianmaCoder

open Checked

namespace V1ToV2

/-- The members of a reference list. -/
def listReferences : Option Json → List (Option Json)
  | some (.arr items) => items.map some
  | _ => []

/-- The range of a surface replacement. -/
def surfaceReferences : Option Json → List (Option Json)
  | none => []
  | some (.str "append") => []
  | some replacement => [replacement.get? "start", replacement.get? "end"]

/-- The references in the payload of an event type. -/
def payloadReferences (type : EventType) (data : Json) : List (Option Json) :=
  match type with
  | .commandDone => (data.get? "sourceEventSeq").toList.map some
  | .compactionPrune | .compactionSummary =>
    let range := data.get? "shadowedRange"
    [range.bind (·.get? "start"), range.bind (·.get? "end")]
      ++ listReferences (data.get? "shadowedSeqs")
  | .sessionTitle | .sessionTitleLlmRequest => listReferences (data.get? "messageSeqs")
  | _ => []

/-- The declared references of an event. -/
def references (event : SessionEvent) : List (Option Json) :=
  listReferences event.sourceEventSeqs ++ surfaceReferences event.surfaceOp
    ++ payloadReferences event.type event.data

/-- `r` names a source seq and `r'` the target seq it is mapped to. -/
def Renames (mapping : OrderedMap ℕ ℕ) (r r' : Option Json) : Prop :=
  ∃ seq target, r = some (.nat seq) ∧ mapping.lookup seq = some target ∧ r' = some (.nat target)

theorem readMember_ok {value : Option Json} {k : String} {v : Option Json}
    (h : readMember value k = .ok v) : v = value.bind (·.get? k) := by
  unfold readMember at h
  split at h
  · cases h
  · cases h
  · cases h
    rfl

variable {mapping : OrderedMap ℕ ℕ}

theorem mapOne_ok {value : Option Json} {label : String} {j : Json}
    (h : mapOne value mapping label = .ok j) : Renames mapping value (some j) := by
  unfold mapOne at h
  split at h
  · next seq =>
      split at h
      · next target hlookup =>
          cases h
          exact ⟨seq, target, rfl, hlookup, rfl⟩
      · cases h
  · cases h

theorem mapList_ok {values : Option Json} {label : String} {j : Json}
    (h : mapList values mapping label = .ok j) :
    List.Forall₂ (Renames mapping) (listReferences values) (listReferences (some j)) := by
  unfold mapList at h
  split at h
  · next items =>
      obtain ⟨mapped, hmapped, hpure⟩ := bind_ok h
      cases hpure
      have hall := forall₂_of_mapM hmapped
      simp only [listReferences, List.forall₂_map_left_iff, List.forall₂_map_right_iff]
      exact hall.imp fun item mapped hone => mapOne_ok hone
  · cases h

variable {event : SessionEvent}

theorem remapSources_ok {sources : Option Json} (h : remapSources event mapping = .ok sources) :
    List.Forall₂ (Renames mapping) (listReferences event.sourceEventSeqs)
      (listReferences sources) := by
  unfold remapSources at h
  split at h
  · next hnone =>
      cases h
      rw [hnone]
      exact .nil
  · next values hsome =>
      obtain ⟨mapped, hmapped, hpure⟩ := bind_ok h
      cases hpure
      rw [hsome]
      exact mapList_ok hmapped

theorem remapSurfaceOp_ok {op : Option Json} (h : remapSurfaceOp event mapping = .ok op) :
    List.Forall₂ (Renames mapping) (surfaceReferences event.surfaceOp) (surfaceReferences op) := by
  unfold remapSurfaceOp at h
  split at h
  · next hnone =>
      cases h
      rw [hnone]
      exact .nil
  · next happend =>
      cases h
      rw [happend]
      exact .nil
  · next replacement hne hop =>
      obtain ⟨start, hstart, h⟩ := bind_ok h
      obtain ⟨start', hstart', h⟩ := bind_ok h
      obtain ⟨stop, hstop, h⟩ := bind_ok h
      obtain ⟨stop', hstop', h⟩ := bind_ok h
      cases h
      have hrefs : surfaceReferences (some replacement)
          = [replacement.get? "start", replacement.get? "end"] := by
        unfold surfaceReferences
        split <;> simp_all
      rw [hop, hrefs]
      have hs := readMember_ok hstart
      have he := readMember_ok hstop
      simp only [Option.bind_some] at hs he
      rw [← hs, ← he]
      exact .cons (mapOne_ok hstart') (.cons (mapOne_ok hstop') .nil)

variable {data : Json}

theorem remapCommandDone_ok (htype : event.type = .commandDone)
    (h : remapPayloadReferences event mapping = .ok data) :
    List.Forall₂ (Renames mapping) (payloadReferences .commandDone event.data)
      (payloadReferences .commandDone data) := by
  unfold remapPayloadReferences at h
  rw [htype] at h
  obtain ⟨source, hsource, h⟩ := bind_ok h
  have hget := readMember_ok hsource
  rw [Option.bind_some] at hget
  cases source with
  | none =>
    cases h
    rw [payloadReferences, ← hget]
    exact .nil
  | some source =>
    obtain ⟨mapped, hmapped, h⟩ := bind_ok h
    cases h
    rw [payloadReferences, payloadReferences, ← hget, Json.get?_put_self]
    exact .cons (mapOne_ok hmapped) .nil

theorem remapCompaction_ok (htype : event.type = .compactionPrune ∨ event.type = .compactionSummary)
    (h : remapPayloadReferences event mapping = .ok data) :
    List.Forall₂ (Renames mapping) (payloadReferences event.type event.data)
      (payloadReferences event.type data) := by
  unfold remapPayloadReferences at h
  rcases htype with htype | htype <;>
  · rw [htype] at h ⊢
    obtain ⟨range, hrange, h⟩ := bind_ok h
    obtain ⟨start, hstart, h⟩ := bind_ok h
    obtain ⟨start', hstart', h⟩ := bind_ok h
    obtain ⟨stop, hstop, h⟩ := bind_ok h
    obtain ⟨stop', hstop', h⟩ := bind_ok h
    obtain ⟨seqs, hseqs, h⟩ := bind_ok h
    cases h
    have hr := readMember_ok hrange
    have hs := readMember_ok hstart
    have he := readMember_ok hstop
    rw [Option.bind_some] at hr
    simp only [payloadReferences, Json.get?_put, ← hr, ← hs, ← he]
    exact .cons (mapOne_ok hstart') (.cons (mapOne_ok hstop') (mapList_ok hseqs))

theorem remapTitle_ok (htype : event.type = .sessionTitle ∨ event.type = .sessionTitleLlmRequest)
    (h : remapPayloadReferences event mapping = .ok data) :
    List.Forall₂ (Renames mapping) (payloadReferences event.type event.data)
      (payloadReferences event.type data) := by
  unfold remapPayloadReferences at h
  rcases htype with htype | htype <;>
  · rw [htype] at h ⊢
    obtain ⟨values, hvalues, h⟩ := bind_ok h
    obtain ⟨seqs, hseqs, h⟩ := bind_ok h
    cases h
    have hv := readMember_ok hvalues
    rw [Option.bind_some] at hv
    simp only [payloadReferences, Json.get?_put_self, ← hv]
    exact mapList_ok hseqs

/-- The types whose payload declares references. -/
def declaresReferences : EventType → Bool
  | .commandDone | .compactionPrune | .compactionSummary | .sessionTitle
  | .sessionTitleLlmRequest => true
  | _ => false

theorem remapPayloadReferences_of_not_declares (htype : declaresReferences event.type = false)
    (mapping : OrderedMap ℕ ℕ) : remapPayloadReferences event mapping = .ok event.data := by
  unfold remapPayloadReferences
  unfold declaresReferences at htype
  split <;> simp_all

theorem payloadReferences_of_not_declares {type : EventType}
    (htype : declaresReferences type = false) (data : Json) : payloadReferences type data = [] := by
  unfold payloadReferences
  unfold declaresReferences at htype
  split <;> simp_all

theorem remapPayloadReferences_ok (h : remapPayloadReferences event mapping = .ok data) :
    List.Forall₂ (Renames mapping) (payloadReferences event.type event.data)
      (payloadReferences event.type data) := by
  by_cases hdeclares : declaresReferences event.type = true
  · unfold declaresReferences at hdeclares
    split at hdeclares
    · next htype =>
        rw [htype]
        exact remapCommandDone_ok htype h
    · next htype => exact remapCompaction_ok (.inl htype) h
    · next htype => exact remapCompaction_ok (.inr htype) h
    · next htype => exact remapTitle_ok (.inl htype) h
    · next htype => exact remapTitle_ok (.inr htype) h
    · cases hdeclares
  · have hnot : declaresReferences event.type = false := by simpa using hdeclares
    rw [payloadReferences_of_not_declares hnot, payloadReferences_of_not_declares hnot]
    exact .nil

/-- An accepted remapping renames every reference and keeps the rest of the envelope. -/
theorem remapReferences_ok {source target : SessionEvent} {targetSeq : ℕ}
    (h : remapReferences source targetSeq mapping = .ok target) :
    target.seq = targetSeq ∧ target.type = source.type ∧ target.time = source.time ∧
      remapPayloadReferences source mapping = .ok target.data ∧
      List.Forall₂ (Renames mapping) (references source) (references target) := by
  unfold remapReferences at h
  obtain ⟨sources, hsources, h⟩ := bind_ok h
  obtain ⟨op, hop, h⟩ := bind_ok h
  obtain ⟨data, hdata, h⟩ := bind_ok h
  cases h
  refine ⟨rfl, rfl, rfl, hdata, ?_⟩
  exact List.rel_append (List.rel_append (remapSources_ok hsources) (remapSurfaceOp_ok hop))
    (remapPayloadReferences_ok hdata)

end V1ToV2

end TianmaCoder
