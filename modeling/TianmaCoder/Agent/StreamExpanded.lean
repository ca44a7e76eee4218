import TianmaCoder.Agent.StreamReaders
import TianmaCoder.Format.AssistantCompact

/-!
# Record readers against the expanded chunks

A reader of a compact stream gives the answer that its question has on the expanded chunks. Each
reader is followed record by record: a raw record is one chunk, and a run answers as its members
do one after the other. Feeding a run as one delta is feeding its members, because the change a
delta makes to its partial adds up along the fragments and never closes it.

## Main definitions

* `BlockAssembler.Readout` — what a finished assembler tells.
* `ReadersAgree`, `ReplayAligned` — the agreement of the readers, and of the replay entries.

## Main results

* `assembleAssistantStream_eq` — the records and the chunks leave one assembler.
* `readersAgree` — every reader agrees with the expanded chunks.
-/

namespace TianmaCoder

open Checked

/-! ## Feeding a run -/

namespace DeltaKey

/-- The block type that a delta opens. -/
def blockType : DeltaKey → String
  | .text _ => "text"
  | .reasoning _ => "reasoning"
  | .toolCall _ _ _ => "tool-call"

/-- What a delta of this block does to an open partial. -/
def grow : DeltaKey → String → PartialBlock → PartialBlock
  | .text _, fragment, current => { current with text := current.text ++ fragment }
  | .reasoning _, fragment, current => { current with text := current.text ++ fragment }
  | .toolCall _ id name, fragment, current =>
    { current with
      toolCallId := some id
      toolCallName := if name.getD "" = "" then current.toolCallName else name
      toolCallArguments := current.toolCallArguments ++ fragment }

theorem grow_block (key : DeltaKey) (fragment : String) (current : PartialBlock) :
    (key.grow fragment current).block = current.block := by
  cases key <;> rfl

theorem grow_grow (key : DeltaKey) (first second : String) (current : PartialBlock) :
    key.grow second (key.grow first current) = key.grow (first ++ second) current := by
  cases key with
  | text index => simp [grow, String.append_assoc]
  | reasoning index => simp [grow, String.append_assoc]
  | toolCall index id name =>
    by_cases hname : name.getD "" = ""
    · simp [grow, hname, String.append_assoc]
    · simp [grow, hname, String.append_assoc]

end DeltaKey

namespace BlockAssembler

variable (assembler : BlockAssembler)

/-- Two changes of one open partial are their composition. -/
theorem update_update (index : Json) (blockType : String)
    {first second : PartialBlock → PartialBlock}
    (hfirst : ∀ current, (first current).block = current.block) :
    (assembler.update index blockType first).update index blockType second =
      assembler.update index blockType fun current => second (first current) := by
  unfold update ensure
  simp only [OrderedMap.lookup_set, if_true, Option.getD_some, OrderedMap.set_set]
  congr 2
  by_cases hblock : (((assembler.partials.lookup index).getD (emptyPartial blockType)).block).isSome
  · simp [hblock]
  · simp [hblock, hfirst]

theorem push_delta (key : DeltaKey) (fragment : String) :
    assembler.push (key.delta fragment) =
      .ok (assembler.update (.nat key.index) key.blockType (key.grow fragment)) := by
  cases key with
  | text index => simp [push, DeltaKey.delta, textMember, Json.str?]; rfl
  | reasoning index => simp [push, DeltaKey.delta, textMember, Json.str?]; rfl
  | toolCall index id name => cases name <;> simp [push, DeltaKey.delta, textMember, Json.str?] <;> rfl

theorem push_members (key : DeltaKey) {members : List String} (hne : members ≠ []) :
    members.foldlM (fun fed member => fed.push (key.delta member)) assembler =
      assembler.push (key.delta (String.join members)) := by
  induction members using List.reverseRecOn with
  | nil => exact absurd rfl hne
  | append_singleton members member ih =>
    by_cases hnil : members = []
    · subst hnil
      simp only [List.nil_append, List.foldlM_cons, List.foldlM_nil, String.join_cons,
        String.join_nil, String.append_empty]
      cases assembler.push (key.delta member) <;> rfl
    · rw [foldlM_snoc, ih hnil, push_delta, ok_bind, push_delta, push_delta,
        update_update _ _ _ (key.grow_block _), String.join_append]
      simp [key.grow_grow]

end BlockAssembler

/-! ## Records -/

variable (key : DeltaKey)

theorem get?_toJson_run (time0 : ℤ) (dt : List ℤ) (members : List String) :
    let json := (AssistantStreamRecord.run key time0 dt members).toJson
    json.get? "type" = some (.str key.runType) ∧ json.get? "time0" = some (.int time0) ∧
      json.get? "dt" = some (.arr (dt.map .int)) ∧
      json.get? (if key.runType = "tool-call-chunks" then "args" else "texts") =
        some (.arr (members.map .str)) := by
  cases key with
  | text index => simp [AssistantStreamRecord.toJson, DeltaKey.runType]
  | reasoning index => simp [AssistantStreamRecord.toJson, DeltaKey.runType]
  | toolCall index id name =>
    cases name <;> simp [AssistantStreamRecord.toJson, DeltaKey.runType]

variable {members : List String}

theorem stringsMember_eq {record : Json} {k : String}
    (h : record.get? k = some (.arr (members.map .str))) : stringsMember record k = members := by
  simp [stringsMember, h, Json.arr?, Json.str?]

variable {dt : List ℤ}

theorem gapsMember_eq {record : Json} {k : String} (h : record.get? k = some (.arr (dt.map .int)))
    (hsafe : ∀ gap ∈ dt, Json.isSafeInteger gap = true) : gapsMember record k = dt := by
  have hgaps : (dt.map Json.int).filterMap (fun item => Json.safeInt? (some item)) = dt := by
    clear h
    induction dt with
    | nil => rfl
    | cons gap dt ih =>
      rw [List.forall_mem_cons] at hsafe
      simpa [Json.safeInt?, hsafe.1] using ih hsafe.2
  simp [gapsMember, h, Json.arr?, hgaps]

theorem timeMember_eq {record : Json} {k : String} {time : ℤ} (h : record.get? k = some (.int time))
    (hsafe : Json.isSafeInteger time = true) : timeMember record k = time := by
  simp [timeMember, h, Json.safeInt?, hsafe]

theorem recordChunk_run (time0 : ℤ) (dt : List ℤ) (members : List String) :
    recordChunk (AssistantStreamRecord.run key time0 dt members).toJson =
      .ok (key.delta (String.join members)) := by
  cases key with
  | text index =>
    simp [recordChunk, AssistantStreamRecord.toJson, DeltaKey.runType, DeltaKey.delta,
      DeltaKey.index, joinedMember, Json.arr?, Json.str?]
  | reasoning index =>
    simp [recordChunk, AssistantStreamRecord.toJson, DeltaKey.runType, DeltaKey.delta,
      DeltaKey.index, joinedMember, Json.arr?, Json.str?]
  | toolCall index id name =>
    cases name with
    | none =>
      simp [recordChunk, AssistantStreamRecord.toJson, DeltaKey.delta, joinedMember,
        Json.arr?, Json.str?]
    | some name =>
      simp [recordChunk, AssistantStreamRecord.toJson, DeltaKey.delta, joinedMember,
        Json.arr?, Json.str?]

theorem expandRun_chunks (time : ℤ) (dt : List ℤ) (members : List String) :
    (expandRun key time dt members).map (·.chunk) = members.map key.delta := by
  induction members generalizing time dt with
  | nil => rfl
  | cons member members ih => rw [expandRun, List.map_cons, List.map_cons, ih]

theorem feed_toJson {r : AssistantStreamRecord} (h : r.Valid) (assembler : BlockAssembler) :
    (recordChunk r.toJson >>= assembler.push) =
      r.expand.foldlM (fun fed value => fed.push value.chunk) assembler := by
  cases r with
  | run key time0 dt members =>
    have hne : members ≠ [] := by
      rintro rfl
      have hlength := h.2.1
      simp at hlength
    rw [recordChunk_run, ok_bind, ← assembler.push_members key hne]
    have hmap : members.foldlM (fun fed member => fed.push (key.delta member)) assembler =
        (members.map key.delta).foldlM BlockAssembler.push assembler := by
      rw [List.foldlM_map]
    have hmap' : (expandRun key time0 dt members).foldlM
          (fun fed value => fed.push value.chunk) assembler =
        ((expandRun key time0 dt members).map (·.chunk)).foldlM BlockAssembler.push assembler := by
      rw [List.foldlM_map]
    rw [hmap, AssistantStreamRecord.expand, hmap', expandRun_chunks]
  | chunk time value =>
    simp only [recordChunk, AssistantStreamRecord.toJson, AssistantStreamRecord.expand]
    simp only [Json.get?_obj, Json.lookup_cons_ite]
    simp
    cases assembler.push value <;> rfl

variable {stream : List Json} {chunks : List TimedStreamChunk}

theorem assembleAssistantStream_eq (h : expandAssistantStream stream = .ok chunks)
    (assembler : BlockAssembler) :
    assembleAssistantStream stream assembler =
      chunks.foldlM (fun fed value => fed.push value.chunk) assembler := by
  obtain ⟨records, hrecords, hchunks⟩ := bind_ok h
  cases hchunks
  have hmap : stream.map (fun record (fed : BlockAssembler) => recordChunk record >>= fed.push) =
      records.map fun r fed => r.expand.foldlM (fun fed value => fed.push value.chunk) fed := by
    refine map_of_validated hrecords ?_ ?_
    · intro value value' hmembers
      simp only [recordChunk, joinedMember]
      rw [hmembers]
    · intro r hr
      funext fed
      exact feed_toJson hr fed
  calc assembleAssistantStream stream assembler
      = (stream.map fun record (fed : BlockAssembler) => recordChunk record >>= fed.push).foldlM
          (fun fed feed => feed fed) assembler := by
        rw [List.foldlM_map]
        rfl
    _ = records.foldlM (fun fed r => r.expand.foldlM (fun fed value => fed.push value.chunk) fed)
          assembler := by rw [hmap, List.foldlM_map]
    _ = (records.flatMap (·.expand)).foldlM (fun fed value => fed.push value.chunk) assembler :=
        foldlM_flatMap.symm

/-! ## The readers -/

section Members

variable {value value' : Json} (h : value.get? = value'.get?)
include h

theorem rawChunk_congr : rawChunk value = rawChunk value' := by
  unfold rawChunk
  rw [h]

theorem timeMember_congr (k : String) : timeMember value k = timeMember value' k := by
  unfold timeMember
  rw [h]

theorem stringsMember_congr (k : String) : stringsMember value k = stringsMember value' k := by
  unfold stringsMember
  rw [h]

theorem firstRunMemberTime_congr (predicate : String → Bool) :
    firstRunMemberTime value predicate = firstRunMemberTime value' predicate := by
  unfold firstRunMemberTime gapsMember
  rw [timeMember_congr h, stringsMember_congr h, h]

theorem runFirstTokenTime_congr : runFirstTokenTime value = runFirstTokenTime value' := by
  unfold runFirstTokenTime Json.has
  rw [timeMember_congr h, firstRunMemberTime_congr h, h]

theorem runFirstVisibleTime_congr : runFirstVisibleTime value = runFirstVisibleTime value' := by
  unfold runFirstVisibleTime
  rw [firstRunMemberTime_congr h, h]

end Members

variable {predicate : String → Bool}

theorem scanMembers_eq {test : Json → Bool}
    (h : ∀ member, test (key.delta member) = predicate member) (time : ℤ) (dt : List ℤ)
    (members : List String) :
    scanMembers predicate time dt members =
      ((expandRun key time dt members).find? fun value => test value.chunk).map (·.time) := by
  induction members generalizing time dt with
  | nil => rfl
  | cons member members ih =>
    rw [scanMembers, expandRun, List.find?_cons, ← h member]
    by_cases htest : test (key.delta member) = true
    · simp [htest]
    · simp only [htest, Bool.false_eq_true, if_false]
      exact ih _ _

theorem firstRunMemberTime_eq {key : DeltaKey} {time0 : ℤ}
    (hvalid : (AssistantStreamRecord.run key time0 dt members).Valid) {test : Json → Bool}
    (h : ∀ member, test (key.delta member) = predicate member) :
    firstRunMemberTime (AssistantStreamRecord.run key time0 dt members).toJson predicate =
      ((AssistantStreamRecord.run key time0 dt members).expand.find? fun value =>
        test value.chunk).map (·.time) := by
  obtain ⟨htype, htime, hdt, hmembers⟩ := get?_toJson_run key time0 dt members
  obtain ⟨_, _, hsafe, hgaps, _⟩ := hvalid
  unfold firstRunMemberTime
  simp only [htype, Option.some.injEq, Json.str.injEq]
  rw [timeMember_eq htime hsafe, gapsMember_eq hdt hgaps, stringsMember_eq hmembers,
    scanMembers_eq key h]
  rfl

/-- A delta that carries the name of its call. -/
def DeltaKey.named : DeltaKey → Bool
  | .toolCall _ _ name => name.isSome
  | _ => false

theorem isTokenDelta_delta (member : String) :
    isTokenDelta (key.delta member) = (member ≠ "" || key.named) := by
  cases key with
  | text index => simp [isTokenDelta, DeltaKey.delta, DeltaKey.named]
  | reasoning index => simp [isTokenDelta, DeltaKey.delta, DeltaKey.named]
  | toolCall index id name =>
    cases name <;> simp [isTokenDelta, DeltaKey.delta, DeltaKey.named, Json.has]

theorem runFirstTokenTime_eq {key : DeltaKey} {time0 : ℤ}
    (hvalid : (AssistantStreamRecord.run key time0 dt members).Valid) :
    runFirstTokenTime (AssistantStreamRecord.run key time0 dt members).toJson =
      ((AssistantStreamRecord.run key time0 dt members).expand.find? fun value =>
        isTokenDelta value.chunk).map (·.time) := by
  obtain ⟨htype, htime, _, _⟩ := get?_toJson_run key time0 dt members
  have hnamed : ((AssistantStreamRecord.run key time0 dt members).toJson.get? "type" =
        some (.str "tool-call-chunks") ∧
      (AssistantStreamRecord.run key time0 dt members).toJson.has "name" = true) ↔
        key.named = true := by
    rw [htype]
    cases key with
    | text index => simp [DeltaKey.runType, DeltaKey.named]
    | reasoning index => simp [DeltaKey.runType, DeltaKey.named]
    | toolCall index id name =>
      cases name <;>
        simp [DeltaKey.runType, DeltaKey.named, AssistantStreamRecord.toJson, Json.has]
  unfold runFirstTokenTime
  by_cases hkey : key.named = true
  · rw [if_pos (hnamed.mpr hkey), timeMember_eq htime hvalid.2.2.1]
    -- a named run is a token at its first member
    cases members with
    | nil =>
      have hlength := hvalid.2.1
      simp at hlength
    | cons member members =>
      simp [AssistantStreamRecord.expand, expandRun, isTokenDelta_delta, hkey]
  · rw [if_neg (mt hnamed.mp hkey)]
    refine firstRunMemberTime_eq hvalid ?_
    intro member
    simp [isTokenDelta_delta, hkey]

theorem rawChunk_run (time0 : ℤ) (dt : List ℤ) (members : List String) :
    rawChunk (AssistantStreamRecord.run key time0 dt members).toJson = none := by
  obtain ⟨htype, _, _, _⟩ := get?_toJson_run key time0 dt members
  cases key <;> simp [rawChunk, htype, DeltaKey.runType]

theorem rawChunk_chunk (time : ℤ) (value : Json) :
    rawChunk (AssistantStreamRecord.chunk time value).toJson = some value := by
  simp [rawChunk, AssistantStreamRecord.toJson]

theorem timeMember_chunk {time : ℤ} (hsafe : Json.isSafeInteger time = true) (value : Json) :
    timeMember (AssistantStreamRecord.chunk time value).toJson "time" = time :=
  timeMember_eq (by simp [AssistantStreamRecord.toJson]) hsafe

/-- The time of the first token of one record. -/
def recordTokenTime (record : Json) : Option ℤ :=
  match rawChunk record with
  | some chunk => if isTokenDelta chunk then some (timeMember record "time") else none
  | none => runFirstTokenTime record

theorem firstTokenTime_eq (h : expandAssistantStream stream = .ok chunks) :
    assistantStreamFirstTokenTime stream =
      (chunks.find? fun value => isTokenDelta value.chunk).map (·.time) := by
  obtain ⟨records, hrecords, hchunks⟩ := bind_ok h
  cases hchunks
  have hmap : stream.map recordTokenTime =
      records.map fun r => (r.expand.find? fun value => isTokenDelta value.chunk).map (·.time) := by
    refine map_of_validated hrecords ?_ ?_
    · intro value value' hmembers
      rw [recordTokenTime, recordTokenTime, rawChunk_congr hmembers, timeMember_congr hmembers,
        runFirstTokenTime_congr hmembers]
    · intro r hr
      cases r with
      | run key time0 dt members =>
        rw [recordTokenTime, rawChunk_run]
        exact runFirstTokenTime_eq hr
      | chunk time value =>
        rw [recordTokenTime, rawChunk_chunk, timeMember_chunk hr.1]
        by_cases htoken : isTokenDelta value = true <;>
          simp [AssistantStreamRecord.expand, htoken]
  rw [List.find?_flatMap, List.map_findSome?]
  calc assistantStreamFirstTokenTime stream
      = (stream.map recordTokenTime).findSome? id := by
        rw [List.findSome?_map]
        rfl
    _ = _ := by
        rw [hmap, List.findSome?_map]
        rfl

/-- A delta that is part of the transcript by itself. -/
def DeltaKey.visible : DeltaKey → String → Bool
  | .toolCall _ _ _, _ => false
  | _, fragment => hasNonWhitespace fragment

theorem isVisibleChunk_delta (member : String) :
    isVisibleChunk (key.delta member) = .ok (key.visible member) := by
  cases key with
  | text index => simp [isVisibleChunk, DeltaKey.delta, DeltaKey.visible, textMember, Json.str?]
  | reasoning index =>
    simp [isVisibleChunk, DeltaKey.delta, DeltaKey.visible, textMember, Json.str?]
  | toolCall index id name => simp [isVisibleChunk, DeltaKey.delta, DeltaKey.visible]

/-- A scan finds a member when one is there. -/
theorem isSome_scanMembers (predicate : String → Bool) (time : ℤ) (dt : List ℤ)
    (members : List String) :
    (scanMembers predicate time dt members).isSome = members.any predicate := by
  induction members generalizing time dt with
  | nil => rfl
  | cons member members ih =>
    rw [scanMembers, List.any_cons]
    by_cases hmember : predicate member = true
    · simp [hmember]
    · simp [hmember, ih]

theorem runFirstVisibleTime_eq (time0 : ℤ) (dt : List ℤ) (members : List String) :
    (runFirstVisibleTime (AssistantStreamRecord.run key time0 dt members).toJson).isSome =
      members.any key.visible := by
  obtain ⟨htype, _, _, hmembers⟩ := get?_toJson_run key time0 dt members
  unfold runFirstVisibleTime firstRunMemberTime
  simp only [htype, Option.some.injEq, Json.str.injEq]
  rw [stringsMember_eq hmembers]
  cases key with
  | text index =>
    rw [if_neg (by simp [DeltaKey.runType]), isSome_scanMembers]
    rfl
  | reasoning index =>
    rw [if_neg (by simp [DeltaKey.runType]), isSome_scanMembers]
    rfl
  | toolCall index id name => simp [DeltaKey.runType, DeltaKey.visible]

theorem anyM_expand_run {key : DeltaKey} {time0 : ℤ} {test : Json → Except String Bool}
    (h : ∀ member, test (key.delta member) = .ok (predicate member)) :
    (AssistantStreamRecord.run key time0 dt members).expand.anyM (fun value => test value.chunk) =
      .ok (members.any predicate) := by
  calc (expandRun key time0 dt members).anyM (fun value => test value.chunk)
      = ((expandRun key time0 dt members).map (·.chunk)).anyM test := anyM_map.symm
    _ = members.anyM fun member => test (key.delta member) := by
        rw [expandRun_chunks, anyM_map]
    _ = .ok (members.any predicate) := anyM_ok predicate fun member _ => h member

theorem anyM_expand_chunk (time : ℤ) (value : Json) (test : Json → Except String Bool) :
    (AssistantStreamRecord.chunk time value).expand.anyM (fun value => test value.chunk) =
      test value := by
  rw [AssistantStreamRecord.expand, List.anyM, List.anyM]
  cases test value with
  | error message => rfl
  | ok found => cases found <;> rfl

theorem anyM_of_validated (h : expandAssistantStream stream = .ok chunks)
    {test : Json → Except String Bool} {read : Json → Except String Bool}
    (hread : ∀ value value' : Json, value.get? = value'.get? → read value = read value')
    (hanswer : ∀ r : AssistantStreamRecord, r.Valid →
      read r.toJson = r.expand.anyM fun value => test value.chunk) :
    stream.anyM read = chunks.anyM fun value => test value.chunk := by
  obtain ⟨records, hrecords, hchunks⟩ := bind_ok h
  cases hchunks
  have hmap : stream.map read =
      records.map fun r => r.expand.anyM fun value => test value.chunk :=
    map_of_validated hrecords hread hanswer
  calc stream.anyM read
      = (stream.map read).anyM id := by rw [anyM_map]; rfl
    _ = records.anyM fun r => r.expand.anyM fun value => test value.chunk := by
        rw [hmap, anyM_map]
        rfl
    _ = (records.flatMap (·.expand)).anyM fun value => test value.chunk := anyM_flatMap.symm

theorem hasVisibleContent_eq (h : expandAssistantStream stream = .ok chunks) :
    assistantStreamHasVisibleContent stream =
      chunks.anyM fun value => isVisibleChunk value.chunk := by
  refine anyM_of_validated h ?_ ?_
  · intro value value' hmembers
    rw [rawChunk_congr hmembers, runFirstVisibleTime_congr hmembers]
  · intro r hr
    cases r with
    | run key time0 dt members =>
      rw [rawChunk_run, anyM_expand_run (isVisibleChunk_delta key)]
      simp only [runFirstVisibleTime_eq]
    | chunk time value =>
      rw [rawChunk_chunk, anyM_expand_chunk]

theorem chunkHasVisibleText_delta (member : String) :
    chunkHasVisibleText (key.delta member) =
      .ok (key.runType = "text-chunks" && hasNonWhitespace member) := by
  cases key with
  | text index =>
    simp [chunkHasVisibleText, DeltaKey.delta, DeltaKey.runType, textMember, Json.str?]
  | reasoning index => simp [chunkHasVisibleText, DeltaKey.delta, DeltaKey.runType]
  | toolCall index id name => simp [chunkHasVisibleText, DeltaKey.delta, DeltaKey.runType]

theorem hasVisibleText_eq (h : expandAssistantStream stream = .ok chunks) :
    assistantStreamHasVisibleText stream =
      chunks.anyM fun value => chunkHasVisibleText value.chunk := by
  refine anyM_of_validated h ?_ ?_
  · intro value value' hmembers
    rw [rawChunk_congr hmembers, stringsMember_congr hmembers, hmembers]
  · intro r hr
    cases r with
    | run key time0 dt members =>
      obtain ⟨htype, _, _, hmembers⟩ := get?_toJson_run key time0 dt members
      rw [rawChunk_run, anyM_expand_run (chunkHasVisibleText_delta key), htype]
      by_cases htext : key.runType = "text-chunks"
      · rw [htext, if_neg (by decide)] at hmembers
        simp [htext, stringsMember_eq hmembers]
      · simp [htext]
    | chunk time value =>
      rw [rawChunk_chunk, anyM_expand_chunk]
      simp [AssistantStreamRecord.toJson]

theorem delta_type_ne (member : String) (type : RawStreamChunkType) :
    (key.delta member).get? "type" ≠ some (.str type.name) := by
  cases key <;> cases type <;> simp [DeltaKey.delta, RawStreamChunkType.name]

/-- Searching for an item and then reading it is searching for its reading. -/
theorem find?_bind {p : Json → Bool} {f : Json → Option Json} (h : ∀ x, p x = true → (f x).isSome)
    (xs : List Json) : (xs.find? p).bind f = xs.findSome? fun x => if p x then f x else none := by
  induction xs with
  | nil => rfl
  | cons x xs ih =>
    rw [List.find?_cons, List.findSome?_cons]
    by_cases hx : p x = true
    · obtain ⟨y, hy⟩ := Option.isSome_iff_exists.mp (h x hx)
      simp [hx, hy]
    · simp [hx, ih]

/-- The raw chunk of a record when it is of one type. -/
def rawChunkOf (type : RawStreamChunkType) (record : Json) : Option Json :=
  if record.get? "type" = some (.str "chunk") ∧
      record.path ["chunk", "type"] = some (.str type.name) then record.get? "chunk"
  else none

theorem lastAssistantStreamChunk_findSome? (stream : List Json) (type : RawStreamChunkType) :
    lastAssistantStreamChunk stream type.name = stream.reverse.findSome? (rawChunkOf type) := by
  unfold lastAssistantStreamChunk
  rw [find?_bind]
  · simp only [decide_eq_true_eq]
    rfl
  · intro record hrecord
    obtain ⟨_, hpath⟩ := of_decide_eq_true hrecord
    rw [Json.path_cons] at hpath
    cases hchunk : record.get? "chunk" with
    | none => simp [hchunk] at hpath
    | some chunk => rfl

theorem lastAssistantStreamChunk_eq (h : expandAssistantStream stream = .ok chunks)
    (type : RawStreamChunkType) :
    lastAssistantStreamChunk stream type.name =
      ((chunks.map (·.chunk)).filter fun chunk =>
        chunk.get? "type" = some (.str type.name)).getLast? := by
  obtain ⟨records, hrecords, hchunks⟩ := bind_ok h
  cases hchunks
  have hmap : stream.map (rawChunkOf type) =
      records.map fun r => ((r.expand.map (·.chunk)).reverse.find? fun chunk =>
        chunk.get? "type" = some (.str type.name)) := by
    refine map_of_validated hrecords ?_ ?_
    · intro value value' hmembers
      unfold rawChunkOf
      rw [Json.path_cons, Json.path_cons, hmembers]
    · intro r hr
      cases r with
      | run key time0 dt members =>
        obtain ⟨htype, _, _, _⟩ := get?_toJson_run key time0 dt members
        have hraw : rawChunkOf type (AssistantStreamRecord.run key time0 dt members).toJson =
            none := by
          unfold rawChunkOf
          rw [htype]
          cases key <;> simp [DeltaKey.runType]
        rw [hraw, AssistantStreamRecord.expand, expandRun_chunks]
        symm
        simp [delta_type_ne]
      | chunk time value =>
        by_cases htype : value.get? "type" = some (.str type.name) <;>
          simp [rawChunkOf, AssistantStreamRecord.toJson, AssistantStreamRecord.expand, htype]
  calc lastAssistantStreamChunk stream type.name
      = (stream.map (rawChunkOf type)).reverse.findSome? id := by
        rw [← List.map_reverse, List.findSome?_map, lastAssistantStreamChunk_findSome?]
        rfl
    _ = records.reverse.findSome? fun r => ((r.expand.map (·.chunk)).reverse.find? fun chunk =>
          chunk.get? "type" = some (.str type.name)) := by
        rw [hmap, ← List.map_reverse, List.findSome?_map]
        rfl
    _ = _ := by
        rw [List.getLast?_filter, List.map_flatMap, List.reverse_flatMap, List.find?_flatMap]
        rfl

/-- The text of a record joins the fragments of its chunks. -/
theorem textFragment_delta (member : String) :
    textFragment (key.delta member) =
      if key.runType = "text-chunks" then some member else none := by
  cases key <;> simp [textFragment, DeltaKey.delta, DeltaKey.runType, textMember, Json.str?]

theorem join_filterMap (f : Json → Option String) (xs : List Json) :
    String.join (xs.filterMap f) = String.join (xs.map fun x => (f x).getD "") := by
  induction xs with
  | nil => rfl
  | cons x xs ih =>
    rw [List.map_cons, String.join_cons, ← ih]
    cases hx : f x with
    | none => simp [hx]
    | some part => simp [hx, String.join_cons]

theorem join_flatMap (f : AssistantStreamRecord → List String) (xs : List AssistantStreamRecord) :
    String.join (xs.flatMap f) = String.join (xs.map fun x => String.join (f x)) := by
  induction xs with
  | nil => rfl
  | cons x xs ih => rw [List.flatMap_cons, String.join_append, List.map_cons, String.join_cons, ih]

theorem recordText_eq {r : AssistantStreamRecord} :
    ((if r.toJson.get? "type" = some (.str "text-chunks") then
        some (joinedMember r.toJson "texts")
      else (rawChunk r.toJson).bind textFragment).getD "") =
      String.join ((r.expand.map (·.chunk)).filterMap textFragment) := by
  cases r with
  | run key time0 dt members =>
    obtain ⟨htype, _, _, hmembers⟩ := get?_toJson_run key time0 dt members
    rw [rawChunk_run, AssistantStreamRecord.expand, expandRun_chunks, htype,
      List.filterMap_map]
    have hfragments : textFragment ∘ key.delta = fun member =>
        if key.runType = "text-chunks" then some member else none :=
      funext (textFragment_delta key)
    rw [hfragments]
    by_cases htext : key.runType = "text-chunks"
    · rw [htext, if_neg (by decide)] at hmembers
      have hjoined := congrArg String.join (stringsMember_eq hmembers)
      simp only [htext, if_true, Option.getD_some]
      rw [List.filterMap_some]
      exact hjoined
    · simp [htext]
  | chunk time value =>
    rw [rawChunk_chunk]
    cases htext : textFragment value with
    | none => simp [AssistantStreamRecord.toJson, AssistantStreamRecord.expand, htext]
    | some text =>
      simp [AssistantStreamRecord.toJson, AssistantStreamRecord.expand, htext]

theorem joinAssistantStreamText_eq (h : expandAssistantStream stream = .ok chunks) :
    joinAssistantStreamText stream =
      String.join ((chunks.map (·.chunk)).filterMap textFragment) := by
  obtain ⟨records, hrecords, hchunks⟩ := bind_ok h
  cases hchunks
  have hmap : (stream.map fun record =>
      (if record.get? "type" = some (.str "text-chunks") then some (joinedMember record "texts")
        else (rawChunk record).bind textFragment).getD "") =
      records.map fun r => String.join ((r.expand.map (·.chunk)).filterMap textFragment) := by
    refine map_of_validated hrecords ?_ fun r _ => recordText_eq
    intro value value' hmembers
    have hjoined : joinedMember value "texts" = joinedMember value' "texts" :=
      congrArg String.join (stringsMember_congr hmembers "texts")
    rw [rawChunk_congr hmembers, hjoined, hmembers]
  unfold joinAssistantStreamText
  rw [join_filterMap, hmap, ← join_flatMap, List.map_flatMap, List.filterMap_flatMap]

/-! ## Replay entries -/

/-- The replay entries of an assembler are those of its blocks, one each: both keep the same
positions of the blocks seen and of the entries received. -/
def ReplayAligned (assembler : BlockAssembler) : Prop :=
  ∀ blocks envelope entries, assembler.blocks = .ok blocks →
    assembler.replay = .ok (some envelope) → envelope.get? "blocks" = some (.arr entries) →
    ∃ all received,
      (assembler.partials.mapM fun entry => BlockAssembler.assemble entry.1 entry.2) = .ok all ∧
      (assembler.replayState.bind fun state => state.get? "blocks") = some (.arr received) ∧
      received.length = all.length ∧ entries.length = blocks.length ∧
      entries.zip blocks = (received.zip all).filter fun pair => assembler.keeps pair.2

/-- The kept blocks are those of the kept pairs. -/
theorem kept_blocks (keeps : Json → Bool) {received all : List Json}
    (hlength : received.length = all.length) :
    all.filter keeps = ((received.zip all).filter fun pair => keeps pair.2).map Prod.snd := by
  have hsnd : (received.zip all).map Prod.snd = all := List.map_snd_zip (by omega)
  conv_lhs => rw [← hsnd, List.filter_map]
  rfl

theorem kept_zip (keeps : Json → Bool) {received all : List Json}
    (hlength : received.length = all.length) :
    (((received.zip all).filter fun pair => keeps pair.2).map Prod.fst).zip (all.filter keeps) =
      (received.zip all).filter fun pair => keeps pair.2 := by
  rw [kept_blocks keeps hlength]
  generalize (received.zip all).filter (fun pair => keeps pair.2) = kept
  induction kept with
  | nil => rfl
  | cons pair kept ih => simp [ih]

theorem prunedReplay_entries {assembler : BlockAssembler} {all entries : List Json}
    {envelope : Json} (h : assembler.prunedReplay all = some envelope)
    (hentries : envelope.get? "blocks" = some (.arr entries)) :
    ∃ received, (assembler.replayState.bind fun state => state.get? "blocks") =
        some (.arr received) ∧ received.length = all.length ∧
      entries = ((received.zip all).filter fun pair => assembler.keeps pair.2).map Prod.fst := by
  unfold BlockAssembler.prunedReplay at h
  cases hstate : assembler.replayState with
  | none => simp [hstate] at h
  | some state =>
    simp only [hstate, Option.bind_some] at h ⊢
    split at h
    · next received hreceived =>
        by_cases hlength : received.length = all.length
        · simp only [hlength, ne_eq, not_true_eq_false, if_false] at h
          refine ⟨received, hreceived, hlength, ?_⟩
          split at h
          · next hkept =>
              cases h
              have heq : received = entries := by simpa [hreceived] using hentries
              have hfilter : (received.zip all).filter (fun pair => assembler.keeps pair.2) =
                  received.zip all := by
                rw [List.filter_eq_self]
                intro pair hpair
                exact List.all_eq_true.mp hkept pair.2 (List.of_mem_zip hpair).2
              rw [hfilter, List.map_fst_zip (by omega), heq]
          · cases h
            simp only [Json.get?_obj, Json.lookup_cons_ite] at hentries
            simpa using hentries.symm
        · simp [hlength] at h
    · next hother =>
        cases h
        exact absurd hentries (hother entries)

theorem replayAligned (assembler : BlockAssembler) : ReplayAligned assembler := by
  intro blocks envelope entries hblocks hreplay hentries
  unfold BlockAssembler.blocks BlockAssembler.assembled at hblocks
  unfold BlockAssembler.replay BlockAssembler.assembled at hreplay
  cases hall : assembler.partials.mapM fun entry => BlockAssembler.assemble entry.1 entry.2 with
  | error message =>
    rw [hall] at hblocks
    cases hblocks
  | ok all =>
    rw [hall] at hblocks hreplay
    cases hblocks
    simp only [ok_bind, pure_eq, Except.map, Except.ok.injEq] at hreplay
    obtain ⟨received, hreceived, hlength, hkept⟩ := prunedReplay_entries hreplay hentries
    have hzip := kept_zip assembler.keeps hlength
    rw [← hkept] at hzip
    refine ⟨all, received, rfl, hreceived, hlength, ?_, hzip⟩
    have hfst : entries.length =
        ((received.zip all).filter fun pair => assembler.keeps pair.2).length := by
      rw [hkept, List.length_map]
    have hsnd : (all.filter assembler.keeps).length =
        ((received.zip all).filter fun pair => assembler.keeps pair.2).length := by
      rw [kept_blocks assembler.keeps hlength, List.length_map]
    exact hfst.trans hsnd.symm

/-! ## Agreement -/

/-- What an assembler tells: its blocks, the blocks an interruption keeps, and the closing
records of its stream. -/
structure BlockAssembler.Readout where
  blocks : Except String (List Json)
  interruptedBlocks : Except String (List Json)
  usage : Option Json
  finish : Json
  replayState : Except String (Option Json)

def BlockAssembler.readout (assembler : BlockAssembler) : BlockAssembler.Readout where
  blocks := assembler.blocks
  interruptedBlocks := assembler.interruptedBlocks
  usage := assembler.usage
  finish := assembler.finishReason
  replayState := assembler.replay

/-- Every reader of a stream answers as on the chunks. -/
structure ReadersAgree (stream : List Json) (chunks : List Json) : Prop where
  assembler : ∀ start : BlockAssembler,
    (assembleAssistantStream stream start).map BlockAssembler.readout =
      (chunks.foldlM BlockAssembler.push start).map BlockAssembler.readout
  hasVisibleContent : assistantStreamHasVisibleContent stream = chunks.anyM isVisibleChunk
  hasVisibleText : assistantStreamHasVisibleText stream = chunks.anyM chunkHasVisibleText
  text : joinAssistantStreamText stream = String.join (chunks.filterMap textFragment)
  last : ∀ type : RawStreamChunkType, lastAssistantStreamChunk stream type.name =
    (chunks.filter fun chunk => chunk.get? "type" = some (.str type.name)).getLast?

/-- The readers of an accepted stream agree with its expanded chunks, the first token with its
time, and whatever the stream leaves in an assembler has its replay entries beside its blocks. -/
theorem readersAgree {stream : List Json} {chunks : List TimedStreamChunk}
    (h : expandAssistantStream stream = .ok chunks) :
    ReadersAgree stream (chunks.map (·.chunk)) ∧
      assistantStreamFirstTokenTime stream =
        (chunks.find? fun value => isTokenDelta value.chunk).map (·.time) ∧
      ∀ start fed, assembleAssistantStream stream start = .ok fed → ReplayAligned fed := by
  refine ⟨?_, firstTokenTime_eq h, fun _ fed _ => replayAligned fed⟩
  constructor
  · intro start
    rw [assembleAssistantStream_eq h start, List.foldlM_map]
  · rw [hasVisibleContent_eq h, anyM_map]
  · rw [hasVisibleText_eq h, anyM_map]
  · exact joinAssistantStreamText_eq h
  · intro type
    exact lastAssistantStreamChunk_eq h type

/-- A cut stream: a run of text, a run of a named call, its closing, and a finish at the token
limit with one replay entry for each of the two blocks. -/
def truncatedStream : List Json :=
  [.obj [("type", .str "text-chunks"), ("time0", .nat 10), ("index", .nat 0),
      ("dt", .arr [.nat 5]), ("texts", .arr [.str "", .str "hi"])],
    .obj [("type", .str "tool-call-chunks"), ("time0", .nat 20), ("index", .nat 1),
      ("dt", .arr [.nat 1]), ("id", .str "c1"), ("name", .str "read"),
      ("args", .arr [.str "\x7b", .str "\x7d"])],
    .obj [("type", .str "chunk"), ("time", .nat 30), ("chunk", .obj [("type", .str "finish"),
      ("reason", .obj [("kind", .str "max-tokens")]),
      ("replayState", .obj [("response", .null), ("blocks", .arr [.nat 1, .nat 2])])])]]

theorem readersAgree_truncatedStream :
    (assembleAssistantStream truncatedStream).bind (·.replay) =
        .ok (some (.obj [("response", .null), ("blocks", .arr [.nat 1])])) ∧
      ∃ chunks, expandAssistantStream truncatedStream = .ok chunks ∧ chunks.length = 5 ∧
        ReadersAgree truncatedStream (chunks.map (·.chunk)) := by
  refine ⟨rfl, _, rfl, rfl, ?_⟩
  exact (readersAgree rfl).1

end TianmaCoder
