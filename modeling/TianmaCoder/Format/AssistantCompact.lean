import Mathlib.Data.List.Forall2
import Mathlib.Data.List.Perm.Subperm
import TianmaCoder.Format.AssistantStream

/-!
# Compaction of assistant streams

What the accumulator stores expands, through the validating expansion, to the chunks it was
given. A record of the accumulator is valid, and each push appends one chunk to the
expansion of its records: a packed delta by its block, time and fragment, any other chunk
as it is.

## Main definitions

* `SameChunk` — equal times and equal members.
* `DeclaredDelta` — a delta has no member beyond those of its kind.
* `AssistantStreamRecord.Valid` — the records `validateRecord` admits.

## Main results

* `validateRecord_toJson` — a valid record passes its validation.
* `appendStreamRecord_spec` — a merged record appends its chunks.
* `AssistantStreamAccumulator.push_ok_iff` — a push merges the record of its chunk.
* `validateRecord_inv` — what an accepted record satisfies, whatever the order of its members.
* `map_of_validated` — a reading of stored records, followed on the records.
* `streamChunk_of_expand` — the chunks of an accepted stream.
-/

namespace TianmaCoder

open Checked

/-- Two timed chunks with equal times and equal members, in any member order. -/
def SameChunk (a b : TimedStreamChunk) : Prop :=
  a.time = b.time ∧ ∀ k, a.chunk.get? k = b.chunk.get? k

/-- The members of a delta of this block. -/
def DeltaKey.memberNames : DeltaKey → List String
  | .text _ | .reasoning _ => ["type", "index", "text"]
  | .toolCall _ _ name =>
    ["type", "index", "id"] ++ name.toList.map (fun _ => "name") ++ ["argumentsDelta"]

/-- A chunk that is packed has no member beyond those of its kind. -/
def DeclaredDelta (chunk : Json) : Prop :=
  ∀ key text, classifyChunk chunk = .ok (some (key, text)) →
    ∀ k, (chunk.get? k).isSome → k ∈ key.memberNames

/-! ## Packed chunks -/

variable {label : String}

theorem safeIndex_ok {value : Option Json} {index : ℕ} (h : safeIndex value label = .ok index) :
    value = some (.nat index) ∧ index ≤ Json.maxSafeInteger := by
  unfold safeIndex at h
  split at h
  · next n hcount =>
      cases h
      have hvalue := Json.eq_nat_of_count? hcount
      rw [hvalue, Json.count?_nat] at hcount
      split at hcount
      · exact ⟨hvalue, by assumption⟩
      · cases hcount
  · cases h

variable {text : String}

theorem deltaText_ok {chunk : Json} {member message : String}
    (h : deltaText chunk member message = .ok text) : chunk.get? member = some (.str text) := by
  unfold deltaText at h
  split at h
  · next s hs =>
      cases h
      exact hs
  · cases h

theorem safeTime_ok {time t : ℤ} (h : safeTime time = .ok t) :
    t = time ∧ Json.isSafeInteger time = true := by
  unfold safeTime at h
  split at h
  · cases h
    exact ⟨rfl, by assumption⟩
  · cases h

/-- A block a record can name. -/
structure DeltaKey.Valid (key : DeltaKey) : Prop where
  index_le : key.index ≤ Json.maxSafeInteger
  id_ne : ∀ index id name, key = .toolCall index id name → id ≠ "" ∧ name ≠ some ""

variable {key : DeltaKey}

theorem DeltaKey.delta_get?_of_not_mem {k : String} (hk : k ∉ key.memberNames) :
    (key.delta text).get? k = none := by
  cases key with
  | text index =>
    simp only [memberNames, List.mem_cons, List.not_mem_nil, or_false, not_or] at hk
    simp [delta, hk]
  | reasoning index =>
    simp only [memberNames, List.mem_cons, List.not_mem_nil, or_false, not_or] at hk
    simp [delta, hk]
  | toolCall index id name =>
    cases name <;>
    · simp only [memberNames, Option.toList, List.map_nil, List.map_cons, List.append_nil,
        List.mem_append, List.mem_cons, List.not_mem_nil, or_false, not_or] at hk
      simp [delta, hk]

/-- A packed chunk has the members of its delta. -/
theorem classifyChunk_delta {chunk : Json} (h : classifyChunk chunk = .ok (some (key, text))) :
    key.Valid ∧ ∀ k ∈ key.memberNames, (key.delta text).get? k = chunk.get? k := by
  unfold classifyChunk at h
  split at h
  · next htype =>
      obtain ⟨index, hindex, h⟩ := bind_ok h
      obtain ⟨value, hvalue, h⟩ := bind_ok h
      cases h
      obtain ⟨hget, hle⟩ := safeIndex_ok hindex
      have htext := deltaText_ok hvalue
      refine ⟨⟨hle, nofun⟩, ?_⟩
      simp [DeltaKey.memberNames, DeltaKey.delta, htype, hget, htext]
  · next htype =>
      obtain ⟨index, hindex, h⟩ := bind_ok h
      obtain ⟨value, hvalue, h⟩ := bind_ok h
      cases h
      obtain ⟨hget, hle⟩ := safeIndex_ok hindex
      have htext := deltaText_ok hvalue
      refine ⟨⟨hle, nofun⟩, ?_⟩
      simp [DeltaKey.memberNames, DeltaKey.delta, htype, hget, htext]
  · next htype =>
      obtain ⟨index, hindex, h⟩ := bind_ok h
      obtain ⟨id, hid, h⟩ := bind_ok h
      obtain ⟨hget, hle⟩ := safeIndex_ok hindex
      have hid' := deltaText_ok hid
      dsimp only at h
      split at h
      · next hname =>
          obtain ⟨_, hpure, h⟩ := bind_ok h
          cases hpure
          obtain ⟨args, hargs, h⟩ := bind_ok h
          have hargs' := deltaText_ok hargs
          split at h
          · cases h
          · next hne =>
              cases h
              refine ⟨⟨hle, ?_⟩, ?_⟩
              · intro index' id' name' heq
                cases heq
                exact not_or.mp hne
              · simp [DeltaKey.memberNames, DeltaKey.delta, htype, hget, hid', hargs']
      · next name hname =>
          obtain ⟨_, hpure, h⟩ := bind_ok h
          cases hpure
          obtain ⟨args, hargs, h⟩ := bind_ok h
          have hargs' := deltaText_ok hargs
          split at h
          · cases h
          · next hne =>
              cases h
              refine ⟨⟨hle, ?_⟩, ?_⟩
              · intro index' id' name' heq
                cases heq
                exact not_or.mp hne
              · simp [DeltaKey.memberNames, DeltaKey.delta, htype, hget, hid', hname, hargs']
      · cases h
  all_goals cases h

theorem classifyChunk_raw {chunk : Json} (h : classifyChunk chunk = .ok none) :
    chunk.isObject = true := by
  cases chunk with
  | obj members => rfl
  | _ => simp [classifyChunk, Json.get?] at h

variable {value : TimedStreamChunk}

theorem sameChunk_delta (h : classifyChunk value.chunk = .ok (some (key, text)))
    (hdeclared : DeclaredDelta value.chunk) : SameChunk value ⟨value.time, key.delta text⟩ := by
  refine ⟨rfl, fun k => ?_⟩
  by_cases hk : k ∈ key.memberNames
  · exact ((classifyChunk_delta h).2 k hk).symm
  · have hnone : value.chunk.get? k = none := by
      by_contra hsome
      exact hk (hdeclared key text h k (Option.isSome_iff_ne_none.mpr hsome))
    rw [hnone, DeltaKey.delta_get?_of_not_mem hk]

theorem classifyChunk_of_delta (h : key.Valid) (text : String) :
    classifyChunk (key.delta text) = .ok (some (key, text)) := by
  have hcount : ∀ label, safeIndex (some (.nat key.index)) label = .ok key.index := by
    intro label
    simp [safeIndex, Json.count?_nat, h.index_le]
  cases key with
  | text index =>
    simp only [DeltaKey.index] at hcount
    simp [classifyChunk, DeltaKey.delta, hcount, deltaText]
  | reasoning index =>
    simp only [DeltaKey.index] at hcount
    simp [classifyChunk, DeltaKey.delta, hcount, deltaText]
  | toolCall index id name =>
    simp only [DeltaKey.index] at hcount
    obtain ⟨hid, hname⟩ := h.id_ne index id name rfl
    cases name with
    | none => simp [classifyChunk, DeltaKey.delta, hcount, deltaText, hid]
    | some name =>
      have hne : name ≠ "" := fun heq => hname (by rw [heq])
      simp [classifyChunk, DeltaKey.delta, hcount, deltaText, hid, hne]

theorem declaredDelta_delta (h : key.Valid) (text : String) : DeclaredDelta (key.delta text) := by
  intro key' text' hclass k hk
  rw [classifyChunk_of_delta h] at hclass
  cases hclass
  by_contra hmem
  rw [DeltaKey.delta_get?_of_not_mem hmem] at hk
  cases hk

/-! ## Valid records -/

/-- The times of the members of a run, which all have to be safe. -/
def memberTimes : ℤ → List ℤ → List ℤ
  | _, [] => []
  | time, gap :: dt => (time + gap) :: memberTimes (time + gap) dt

variable {dt : List ℤ}

theorem assertMemberTimes_ok_iff {time : ℤ} :
    assertMemberTimes label time dt = .ok ()
      ↔ ∀ t ∈ memberTimes time dt, Json.isSafeInteger t = true := by
  induction dt generalizing time with
  | nil => simp [assertMemberTimes, memberTimes]
  | cons gap dt ih =>
    rw [assertMemberTimes, memberTimes, List.forall_mem_cons]
    split
    · next hsafe => simp [hsafe, ih]
    · next hnot => simp [hnot]

/-- The records `validateRecord` admits. -/
def AssistantStreamRecord.Valid : AssistantStreamRecord → Prop
  | .run key time0 dt members =>
    key.Valid ∧ dt.length + 1 = members.length ∧ Json.isSafeInteger time0 = true ∧
      (∀ gap ∈ dt, Json.isSafeInteger gap = true) ∧
      ∀ t ∈ memberTimes time0 dt, Json.isSafeInteger t = true
  | .chunk time value => Json.isSafeInteger time = true ∧ value.isObject = true

theorem stringArray_map (members : List String) (label : String) :
    stringArray (some (.arr (members.map .str))) label = .ok members := by
  simp only [stringArray, Json.arr?]
  induction members with
  | nil => rfl
  | cons member members ih =>
    rw [List.map_cons, List.mapM_cons, ih]
    rfl

theorem gapArray_map (h : ∀ gap ∈ dt, Json.isSafeInteger gap = true) (label : String) :
    gapArray (some (.arr (dt.map .int))) label = .ok dt := by
  simp only [gapArray, Json.arr?]
  induction dt with
  | nil => rfl
  | cons gap dt ih =>
    rw [List.forall_mem_cons] at h
    rw [List.map_cons, List.mapM_cons, ih h.2]
    simp [Json.safeInt?, h.1]

theorem validateRun_ok {record : Json} {index : ℕ} {time0 : ℤ} {members : ℕ}
    (htime : record.get? "time0" = some (.int time0))
    (hindex : record.get? "index" = some (.nat index))
    (hdt : record.get? "dt" = some (.arr (dt.map .int))) (hle : index ≤ Json.maxSafeInteger)
    (hlength : dt.length + 1 = members) (htime0 : Json.isSafeInteger time0 = true)
    (hgaps : ∀ gap ∈ dt, Json.isSafeInteger gap = true)
    (htimes : ∀ t ∈ memberTimes time0 dt, Json.isSafeInteger t = true) :
    validateRun record members label = .ok (time0, index, dt) := by
  have hcount : safeIndex (some (.nat index)) label = .ok index := by
    simp [safeIndex, Json.count?_nat, hle]
  have hne : ¬ dt.length ≠ members - 1 := by omega
  have hmembers : assertMemberTimes label time0 dt = .ok () := assertMemberTimes_ok_iff.mpr htimes
  simp only [validateRun, htime, hindex, hdt, hcount, gapArray_map hgaps, Json.safeInt?, htime0,
    if_true, pure_eq, ok_bind, if_neg hne, hmembers]

variable {r : AssistantStreamRecord}

theorem validateRecord_toJson (h : r.Valid) : validateRecord r.toJson = .ok r := by
  cases r with
  | chunk time value =>
    obtain ⟨htime, hobject⟩ := h
    simp [AssistantStreamRecord.toJson, validateRecord, exactKeys, Json.has, Json.safeInt?,
      htime, hobject]
  | run key time0 dt members =>
    obtain ⟨hkey, hlength, htime0, hgaps, htimes⟩ := h
    have hne : members ≠ [] := by
      intro hnil
      rw [hnil] at hlength
      simp at hlength
    have hrun : ∀ (record : Json) (label : String), record.get? "time0" = some (.int time0) →
        record.get? "index" = some (.nat key.index) →
        record.get? "dt" = some (.arr (dt.map .int)) →
        validateRun record members.length label = .ok (time0, key.index, dt) :=
      fun record label ht hi hd =>
        validateRun_ok ht hi hd hkey.index_le hlength htime0 hgaps htimes
    cases key with
    | text index =>
      have hvalid := hrun (AssistantStreamRecord.toJson (.run (.text index) time0 dt members))
        "text-chunks" rfl rfl rfl
      simp [AssistantStreamRecord.toJson, DeltaKey.runType, DeltaKey.index] at hvalid ⊢
      simp [validateRecord, exactKeys, Json.has, stringArray_map, hne, hvalid]
    | reasoning index =>
      have hvalid := hrun
        (AssistantStreamRecord.toJson (.run (.reasoning index) time0 dt members))
        "reasoning-chunks" rfl rfl rfl
      simp [AssistantStreamRecord.toJson, DeltaKey.runType, DeltaKey.index] at hvalid ⊢
      simp [validateRecord, exactKeys, Json.has, stringArray_map, hne, hvalid]
    | toolCall index id name =>
      obtain ⟨hid, hname⟩ := hkey.id_ne index id name rfl
      have hvalid := hrun
        (AssistantStreamRecord.toJson (.run (.toolCall index id name) time0 dt members))
        "tool-call-chunks" rfl rfl rfl
      cases name with
      | none =>
        simp [AssistantStreamRecord.toJson, DeltaKey.index] at hvalid ⊢
        simp [validateRecord, exactKeys, Json.has, stringArray_map, hne, hvalid,
          Json.nonEmptyStr?, hid]
      | some name =>
        have hname' : name ≠ "" := fun heq => hname (by rw [heq])
        simp [AssistantStreamRecord.toJson, DeltaKey.index] at hvalid ⊢
        simp [validateRecord, exactKeys, Json.has, stringArray_map, hne, hvalid,
          Json.nonEmptyStr?, hid, hname']

/-! ## Accepted records -/

theorem stringArray_ok {value : Option Json} {texts : List String}
    (h : stringArray value label = .ok texts) : value = some (.arr (texts.map .str)) := by
  unfold stringArray at h
  split at h
  · cases h
  · next items hitems =>
      rw [Json.eq_arr_of_arr? hitems]
      clear hitems
      induction items generalizing texts with
      | nil =>
        cases h
        rfl
      | cons item items ih =>
        rw [List.mapM_cons, bind_ok_iff] at h
        obtain ⟨text, htext, h⟩ := h
        obtain ⟨rest, hrest, h⟩ := bind_ok h
        cases h
        have hitems := ih hrest
        simp only [Option.some.injEq, Json.arr.injEq] at hitems
        split at htext
        · cases htext
          simp [hitems]
        · cases htext

theorem gapArray_ok {value : Option Json} (h : gapArray value label = .ok dt) :
    value = some (.arr (dt.map .int)) ∧ ∀ gap ∈ dt, Json.isSafeInteger gap = true := by
  unfold gapArray at h
  split at h
  · cases h
  · next items hitems =>
      rw [Json.eq_arr_of_arr? hitems]
      constructor
      · have hmap : items.map id = dt.map Json.int := by
          refine map_eq_of_mapM h fun item gap hgap => ?_
          split at hgap
          · next n hn =>
              cases hgap
              exact Option.some.inj (Json.eq_int_of_safeInt? hn)
          · cases hgap
        rw [← hmap, List.map_id]
      · intro gap hgap
        obtain ⟨item, -, hitem⟩ := forall₂_exists_left (forall₂_of_mapM h) hgap
        split at hitem
        · next n hn =>
            cases hitem
            exact Json.isSafeInteger_of_safeInt? hn
        · cases hitem

theorem validateRun_inv {record : Json} {members : ℕ} {time0 : ℤ} {index : ℕ}
    (h : validateRun record members label = .ok (time0, index, dt)) :
    (index ≤ Json.maxSafeInteger ∧ dt.length = members - 1 ∧ Json.isSafeInteger time0 = true ∧
      (∀ gap ∈ dt, Json.isSafeInteger gap = true) ∧
      ∀ t ∈ memberTimes time0 dt, Json.isSafeInteger t = true) ∧
    record.get? "time0" = some (.int time0) ∧ record.get? "index" = some (.nat index) ∧
      record.get? "dt" = some (.arr (dt.map .int)) := by
  unfold validateRun at h
  dsimp only at h
  split at h
  · next t ht =>
      obtain ⟨_, hpure, h⟩ := bind_ok h
      cases hpure
      obtain ⟨index', hindex, h⟩ := bind_ok h
      obtain ⟨dt', hdt, h⟩ := bind_ok h
      split at h
      · cases h
      · next hlength =>
          obtain ⟨⟨⟩, htimes, h⟩ := bind_ok h
          cases h
          exact ⟨⟨(safeIndex_ok hindex).2, not_ne_iff.mp hlength, Json.isSafeInteger_of_safeInt? ht,
            (gapArray_ok hdt).2, assertMemberTimes_ok_iff.mp htimes⟩,
            Json.eq_int_of_safeInt? ht, (safeIndex_ok hindex).1, (gapArray_ok hdt).1⟩
  · cases h

theorem lookup_of_exactKeys {record : List (String × Json)} {keys : List String} {label : String}
    (hkeys : keys.Nodup) (h : exactKeys record keys label = .ok ()) {k : String} (hk : k ∉ keys) :
    record.lookup k = none := by
  unfold exactKeys at h
  split at h
  · next hexact =>
      obtain ⟨hlength, hall⟩ := hexact
      have hsub : keys ⊆ OrderedMap.keys record := by
        intro key hkey
        have hhas := List.all_eq_true.mp hall key hkey
        exact (OrderedMap.mem_keys_iff key record).mpr hhas
      have hlen : (OrderedMap.keys record).length ≤ keys.length := by
        simp [OrderedMap.keys, hlength]
      have hperm := (hkeys.subperm hsub).perm_of_length_le hlen
      exact OrderedMap.lookup_eq_none fun hmem => hk (hperm.mem_iff.mpr hmem)
  · cases h

theorem get?_of_keys {record fields : List (String × Json)} {label : String}
    (hnodup : (fields.map Prod.fst).Nodup)
    (hexact : exactKeys record (fields.map Prod.fst) label = .ok ())
    (hread : ∀ entry ∈ fields, record.lookup entry.1 = some entry.2) (k : String) :
    (Json.obj record).get? k = (Json.obj fields).get? k := by
  by_cases hk : k ∈ fields.map Prod.fst
  · have hsome : (fields.lookup k).isSome := (OrderedMap.mem_keys_iff k fields).mp hk
    obtain ⟨v, hv⟩ := Option.isSome_iff_exists.mp hsome
    rw [Json.get?_obj, Json.get?_obj, hv]
    exact hread (k, v) (OrderedMap.mem_of_lookup hv)
  · rw [Json.get?_obj, Json.get?_obj, OrderedMap.lookup_eq_none hk]
    exact lookup_of_exactKeys hnodup hexact hk

theorem validateRecord_inv {value : Json} (h : validateRecord value = .ok r) :
    r.Valid ∧ ∀ k, value.get? k = r.toJson.get? k := by
  have hrun : ∀ {key : DeltaKey} {members : List String} {label : String} {time0 : ℤ} {index : ℕ}
      {dt : List ℤ}, key.index = index →
      (∀ index id name, key = .toolCall index id name → id ≠ "" ∧ name ≠ some "") →
      members ≠ [] → validateRun value members.length label = .ok (time0, index, dt) →
      (AssistantStreamRecord.run key time0 dt members).Valid := by
    intro key members label time0 index dt hkey hid hne hvalid
    obtain ⟨hindex, hlength, htime, hgaps, htimes⟩ := (validateRun_inv hvalid).1
    have hpos : 0 < members.length := List.length_pos_iff.mpr hne
    refine ⟨⟨hkey ▸ hindex, hid⟩, by omega, htime, hgaps, htimes⟩
  unfold validateRecord at h
  split at h
  · next record =>
      split at h
      · next htype =>
          obtain ⟨⟨⟩, hexact, h⟩ := bind_ok h
          obtain ⟨texts, htexts, h⟩ := bind_ok h
          split at h
          · cases h
          · next hne =>
              obtain ⟨⟨time0, index, dt⟩, hvalid, h⟩ := bind_ok h
              cases h
              obtain ⟨htime, hindex, hdt⟩ := (validateRun_inv hvalid).2
              refine ⟨hrun rfl nofun hne hvalid, get?_of_keys (by simp) hexact ?_⟩
              simpa [DeltaKey.runType] using ⟨htype, htime, hindex, hdt, stringArray_ok htexts⟩
      · next htype =>
          obtain ⟨⟨⟩, hexact, h⟩ := bind_ok h
          obtain ⟨texts, htexts, h⟩ := bind_ok h
          split at h
          · cases h
          · next hne =>
              obtain ⟨⟨time0, index, dt⟩, hvalid, h⟩ := bind_ok h
              cases h
              obtain ⟨htime, hindex, hdt⟩ := (validateRun_inv hvalid).2
              refine ⟨hrun rfl nofun hne hvalid, get?_of_keys (by simp) hexact ?_⟩
              simpa [DeltaKey.runType] using ⟨htype, htime, hindex, hdt, stringArray_ok htexts⟩
      · next htype =>
          obtain ⟨⟨⟩, hexact, h⟩ := bind_ok h
          obtain ⟨args, hargs, h⟩ := bind_ok h
          by_cases hne : args = []
          · simp [hne] at h
          · simp only [if_neg hne] at h
            cases hid : Json.nonEmptyStr? ((Json.obj record).get? "id") with
            | none =>
              simp only [hid, throw_eq, error_bind] at h
              cases h
            | some id =>
              simp only [hid, pure_eq, ok_bind] at h
              obtain ⟨hget, hid'⟩ := Json.nonEmptyStr?_eq_some hid
              cases hname : (Json.obj record).get? "name" with
              | none =>
                simp only [hname] at h
                obtain ⟨⟨time0, index, dt⟩, hvalid, h⟩ := bind_ok h
                cases h
                obtain ⟨htime, hindex, hdt⟩ := (validateRun_inv hvalid).2
                simp only [Json.has, hname, Option.isSome_none, Bool.false_eq_true,
                  if_false] at hexact
                refine ⟨hrun rfl ?_ hne hvalid, get?_of_keys (by simp) hexact ?_⟩
                · intro index' id' name' heq
                  cases heq
                  exact ⟨hid', nofun⟩
                · simpa using ⟨htype, htime, hindex, hdt, hget, stringArray_ok hargs⟩
              | some member =>
                simp only [hname] at h
                cases hstr : Json.nonEmptyStr? (some member) with
                | none =>
                  simp only [hstr, throw_eq, error_bind] at h
                  cases h
                | some name =>
                  simp only [hstr] at h
                  obtain ⟨⟨time0, index, dt⟩, hvalid, h⟩ := bind_ok h
                  cases h
                  obtain ⟨htime, hindex, hdt⟩ := (validateRun_inv hvalid).2
                  obtain ⟨hmember, hname'⟩ := Json.nonEmptyStr?_eq_some hstr
                  rw [hmember] at hname
                  simp only [Json.has, hname, Option.isSome_some, if_true] at hexact
                  refine ⟨hrun rfl ?_ hne hvalid, get?_of_keys (by simp) hexact ?_⟩
                  · intro index' id' name' heq
                    cases heq
                    exact ⟨hid', fun heq => hname' (Option.some.inj heq)⟩
                  · simpa using ⟨htype, htime, hindex, hdt, hget, hname, stringArray_ok hargs⟩
      · next htype =>
          obtain ⟨⟨⟩, hexact, h⟩ := bind_ok h
          dsimp only at h
          split at h
          · next time htime =>
              obtain ⟨_, hpure, h⟩ := bind_ok h
              cases hpure
              split at h
              · next chunk hchunk =>
                  split at h
                  · next hobject =>
                      cases h
                      refine ⟨⟨Json.isSafeInteger_of_safeInt? htime, hobject⟩,
                        get?_of_keys (by simp) hexact ?_⟩
                      simpa using ⟨htype, Json.eq_int_of_safeInt? htime, hchunk⟩
                  · cases h
              · cases h
          · cases h
      · cases h
  · cases h

theorem map_of_validated {γ : Type} {read : Json → γ} {answer : AssistantStreamRecord → γ}
    {stream : List Json} {records : List AssistantStreamRecord}
    (h : stream.mapM validateRecord = .ok records)
    (hread : ∀ value value' : Json, value.get? = value'.get? → read value = read value')
    (hanswer : ∀ r : AssistantStreamRecord, r.Valid → read r.toJson = answer r) :
    stream.map read = records.map answer := by
  refine map_eq_of_mapM h ?_
  intro value r hr
  obtain ⟨hvalid, hmembers⟩ := validateRecord_inv hr
  rw [hread value r.toJson (funext hmembers), hanswer r hvalid]

/-! ## Merging -/

/-- The chunks of a run laid over two stretches. -/
theorem expandRun_append (key : DeltaKey) (time gap : ℤ) (dt dt' : List ℤ)
    (members members' : List String) (hlength : dt.length + 1 = members.length) :
    expandRun key time (dt ++ gap :: dt') (members ++ members')
      = expandRun key time dt members
        ++ expandRun key (dt.foldl (· + ·) time + gap) dt' members' := by
  induction members generalizing time dt with
  | nil => simp at hlength
  | cons member members ih =>
    cases dt with
    | nil =>
      have hnil : members = [] := List.length_eq_zero_iff.mp (by simpa using hlength)
      rw [hnil]
      rfl
    | cons d dt =>
      have hrest : dt.length + 1 = members.length := by simpa using hlength
      rw [List.cons_append, List.cons_append, expandRun, expandRun]
      simp only [List.headD_cons, List.tail_cons, List.foldl_cons, List.cons_append]
      rw [ih (time + d) dt hrest]

theorem memberTimes_append (time gap : ℤ) (dt dt' : List ℤ) :
    memberTimes time (dt ++ gap :: dt')
      = memberTimes time dt ++ (dt.foldl (· + ·) time + gap)
        :: memberTimes (dt.foldl (· + ·) time + gap) dt' := by
  induction dt generalizing time with
  | nil => rfl
  | cons d dt ih =>
    rw [List.cons_append, memberTimes, memberTimes, List.foldl_cons, List.cons_append, ih]

/-- What holds of every stream under construction. -/
def ValidStream (stream : List MutableRecord) : Prop :=
  ∀ r ∈ stream, r.record.Valid ∧ r.lastTime = r.record.lastTime

/-- The chunks of a stream under construction. -/
def expandStream (stream : List MutableRecord) : List TimedStreamChunk :=
  stream.flatMap fun r => r.record.expand

/-- Merging a valid record keeps a stream valid and appends its chunks. -/
theorem appendStreamRecord_spec {stream : List MutableRecord} {source : AssistantStreamRecord}
    (hstream : ValidStream stream) (hsource : source.Valid) :
    ValidStream (appendStreamRecord stream source source.lastTime) ∧
      expandStream (appendStreamRecord stream source source.lastTime)
        = expandStream stream ++ source.expand := by
  have happend : ValidStream (stream ++ [⟨source, source.lastTime⟩]) ∧
      expandStream (stream ++ [⟨source, source.lastTime⟩])
        = expandStream stream ++ source.expand := by
    refine ⟨?_, by simp [expandStream]⟩
    intro r hr
    rcases List.mem_append.mp hr with hr | hr
    · exact hstream r hr
    · rw [List.mem_singleton.mp hr]
      exact ⟨hsource, rfl⟩
  unfold appendStreamRecord
  split
  · next key' time0' dt' members' previousTime key time0 dt members hlast =>
      obtain ⟨front, hfront⟩ := List.getLast?_eq_some_iff.mp hlast
      dsimp only
      split
      · next hmerge =>
          obtain ⟨hkey, hgap⟩ := hmerge
          have hprevious := hstream ⟨.run key' time0' dt' members', previousTime⟩
            (List.mem_of_getLast? hlast)
          obtain ⟨⟨hkey', hlength', htime0', hgaps', htimes'⟩, hlastTime⟩ := hprevious
          obtain ⟨_, hlength, htime0, hgaps, htimes⟩ := hsource
          have hfold : dt'.foldl (· + ·) time0' = previousTime := hlastTime.symm
          have hnext : previousTime + (time0 - previousTime) = time0 := by omega
          subst hkey
          rw [hfront, List.dropLast_concat]
          constructor
          · intro r hr
            rcases List.mem_append.mp hr with hr | hr
            · exact hstream r (by rw [hfront]; exact List.mem_append_left _ hr)
            · rw [List.mem_singleton.mp hr]
              refine ⟨⟨hkey', ?_, htime0', ?_, ?_⟩, ?_⟩
              · simp only [List.length_append, List.length_cons]
                omega
              · intro gap hmem
                rcases List.mem_append.mp hmem with hmem | hmem
                · exact hgaps' gap hmem
                · rcases List.mem_cons.mp hmem with rfl | hmem
                  · exact hgap
                  · exact hgaps gap hmem
              · rw [memberTimes_append, hfold, hnext]
                intro t ht
                rcases List.mem_append.mp ht with ht | ht
                · exact htimes' t ht
                · rcases List.mem_cons.mp ht with rfl | ht
                  · exact htime0
                  · exact htimes t ht
              · simp only [AssistantStreamRecord.lastTime, List.foldl_append, List.foldl_cons,
                  hfold, hnext]
          · simp only [expandStream, List.flatMap_append, List.flatMap_cons, List.flatMap_nil,
              List.append_nil, AssistantStreamRecord.expand, List.append_assoc]
            rw [expandRun_append _ _ _ _ _ _ _ hlength', hfold, hnext]
      · exact happend
  · exact happend

/-! ## Pushing -/

/-- The record of one chunk. -/
def recordOf (value : TimedStreamChunk) : AssistantStreamRecord :=
  match classifyChunk value.chunk with
  | .ok (some (key, text)) => .run key value.time [] [text]
  | _ => .chunk value.time value.chunk

/-- The chunk as its record stores it. -/
def storedChunk (value : TimedStreamChunk) : TimedStreamChunk :=
  match classifyChunk value.chunk with
  | .ok (some (key, text)) => ⟨value.time, key.delta text⟩
  | _ => value

/-- The chunks `push` admits. -/
def Admissible (value : TimedStreamChunk) : Prop :=
  Json.isSafeInteger value.time = true ∧ ∃ r, classifyChunk value.chunk = .ok r

theorem recordOf_lastTime (value : TimedStreamChunk) : (recordOf value).lastTime = value.time := by
  unfold recordOf
  split <;> rfl

theorem recordOf_expand (value : TimedStreamChunk) :
    (recordOf value).expand = [storedChunk value] := by
  unfold recordOf storedChunk
  split <;> simp [AssistantStreamRecord.expand, expandRun]

theorem recordOf_valid (h : Admissible value) : (recordOf value).Valid := by
  obtain ⟨htime, r, hr⟩ := h
  unfold recordOf
  rw [hr]
  cases r with
  | none => exact ⟨htime, classifyChunk_raw hr⟩
  | some packed =>
    obtain ⟨key, text⟩ := packed
    exact ⟨(classifyChunk_delta hr).1, rfl, htime, by simp, by simp [memberTimes]⟩

theorem storedChunk_same (hdeclared : DeclaredDelta value.chunk) :
    SameChunk value (storedChunk value) := by
  unfold storedChunk
  split
  · next key text h => exact sameChunk_delta h hdeclared
  · exact ⟨rfl, fun _ => rfl⟩

theorem safeGap_eq (previous next : ℤ) :
    safeGap previous next
      = if Json.isSafeInteger (next - previous) then some (next - previous) else none := by
  have hnext : previous + (next - previous) = next := by omega
  simp [safeGap, hnext]

namespace AssistantStreamAccumulator

/-- A delta extends the last record exactly when its record merges into it. -/
theorem extend_eq (records : List MutableRecord) (key : DeltaKey) (text : String) (time : ℤ) :
    (match extend records.getLast? key text time with
      | some extended => records.dropLast ++ [extended]
      | none => records ++ [⟨.run key time [] [text], time⟩])
      = appendStreamRecord records (.run key time [] [text]) time := by
  unfold appendStreamRecord extend
  cases records.getLast? with
  | none => rfl
  | some last =>
    obtain ⟨record, lastTime⟩ := last
    cases record with
    | chunk t value => rfl
    | run key' time0 dt members =>
      dsimp only
      by_cases hkey : key' = key
      · by_cases hgap : Json.isSafeInteger (time - lastTime) = true
        · simp [hkey, safeGap_eq, hgap]
        · simp [hkey, safeGap_eq, hgap]
      · simp [hkey]

theorem push_ok_iff {a a' : AssistantStreamAccumulator} :
    a.push value = .ok a'
      ↔ Admissible value ∧ a'.records = appendStreamRecord a.records (recordOf value) value.time := by
  obtain ⟨records'⟩ := a'
  constructor
  · intro h
    obtain ⟨time, htime, h⟩ := bind_ok h
    obtain ⟨rfl, hsafe⟩ := safeTime_ok htime
    obtain ⟨packed, hpacked, h⟩ := bind_ok h
    refine ⟨⟨hsafe, packed, hpacked⟩, ?_⟩
    cases packed with
    | none =>
      cases h
      simp [recordOf, hpacked, appendStreamRecord]
    | some packed =>
      obtain ⟨key, text⟩ := packed
      simp only [recordOf, hpacked]
      rw [← extend_eq]
      dsimp only at h
      split at h <;>
      · next heq =>
          cases h
          simp only [heq]
  · rintro ⟨⟨hsafe, packed, hpacked⟩, hrecords⟩
    simp only at hrecords
    subst hrecords
    simp only [push, safeTime, hsafe, if_true, pure_eq, ok_bind, hpacked]
    cases packed with
    | none => simp [recordOf, hpacked, appendStreamRecord]
    | some packed =>
      obtain ⟨key, text⟩ := packed
      simp only [recordOf, hpacked]
      rw [← extend_eq]
      split <;> simp_all

end AssistantStreamAccumulator

/-! ## Whole streams -/

theorem expandAssistantStream_toJson {rs : List AssistantStreamRecord} (h : ∀ r ∈ rs, r.Valid) :
    expandAssistantStream (rs.map (·.toJson)) = .ok (rs.flatMap (·.expand)) := by
  have hmap : (rs.map (·.toJson)).mapM validateRecord = .ok rs := by
    induction rs with
    | nil => rfl
    | cons r rs ih =>
      rw [List.forall_mem_cons] at h
      rw [List.map_cons, List.mapM_cons, validateRecord_toJson h.1, ok_bind, ih h.2]
      rfl
  simp [expandAssistantStream, hmap]

theorem mem_expandRun {time : ℤ} {members : List String} (hlength : dt.length + 1 = members.length)
    (htime : Json.isSafeInteger time = true)
    (htimes : ∀ t ∈ memberTimes time dt, Json.isSafeInteger t = true)
    (h : value ∈ expandRun key time dt members) :
    Json.isSafeInteger value.time = true ∧ ∃ text, value.chunk = key.delta text := by
  induction members generalizing time dt with
  | nil => simp at hlength
  | cons member members ih =>
    rw [expandRun, List.mem_cons] at h
    rcases h with rfl | h
    · exact ⟨htime, member, rfl⟩
    · cases dt with
      | nil =>
        have hnil : members = [] := List.length_eq_zero_iff.mp (by simpa using hlength)
        simp [hnil, expandRun] at h
      | cons gap dt =>
        rw [memberTimes, List.forall_mem_cons] at htimes
        exact ih (by simpa using hlength) htimes.1 htimes.2 h

/-- A chunk of its declared type: one `push` takes, whose members are those of its kind. -/
def StreamChunk (chunk : Json) : Prop := (∃ r, classifyChunk chunk = .ok r) ∧ DeclaredDelta chunk

/-- The chunks of an accepted record are of their declared type when those it stores raw are. -/
theorem streamChunk_of_validateRecord {record : Json} (h : validateRecord record = .ok r)
    (hraw : record.get? "type" = some (.str "chunk") →
      ∀ chunk, record.get? "chunk" = some chunk → StreamChunk chunk) :
    ∀ value ∈ r.expand, Json.isSafeInteger value.time = true ∧ StreamChunk value.chunk := by
  obtain ⟨hvalid, hstored⟩ := validateRecord_inv h
  intro value hvalue
  cases r with
  | run key time0 dt members =>
    obtain ⟨hkey, hlength, htime, _, htimes⟩ := hvalid
    obtain ⟨hsafe, text, htext⟩ := mem_expandRun hlength htime htimes hvalue
    rw [htext]
    exact ⟨hsafe, ⟨_, classifyChunk_of_delta hkey text⟩, declaredDelta_delta hkey text⟩
  | chunk time chunk =>
    have htype : record.get? "type" = some (.str "chunk") := (hstored "type").trans rfl
    have hchunk : record.get? "chunk" = some chunk := (hstored "chunk").trans rfl
    rw [List.mem_singleton.mp hvalue]
    exact ⟨hvalid.1, hraw htype chunk hchunk⟩

theorem streamChunk_of_expand {stream : List Json} {chunks : List TimedStreamChunk}
    (h : expandAssistantStream stream = .ok chunks)
    (hraw : ∀ record ∈ stream, record.get? "type" = some (.str "chunk") →
      ∀ chunk, record.get? "chunk" = some chunk → StreamChunk chunk) :
    ∀ value ∈ chunks, Json.isSafeInteger value.time = true ∧ StreamChunk value.chunk := by
  obtain ⟨records, hrecords, hchunks⟩ := bind_ok h
  cases hchunks
  clear h
  induction stream generalizing records with
  | nil =>
    cases hrecords
    simp
  | cons record stream ih =>
    rw [List.forall_mem_cons] at hraw
    rw [List.mapM_cons, bind_ok_iff] at hrecords
    obtain ⟨r, hr, hrecords⟩ := hrecords
    obtain ⟨rs, hrs, hrecords⟩ := bind_ok hrecords
    cases hrecords
    rw [List.flatMap_cons, List.forall_mem_append]
    exact ⟨streamChunk_of_validateRecord hr hraw.1, ih hraw.2 rs hrs⟩

end TianmaCoder
