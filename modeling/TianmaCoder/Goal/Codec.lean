import TianmaCoder.Goal.Domain

/-!
# What the strict decoder accepts

A change that keeps the rules of its fields is decoded to itself, and whatever the decoder
accepts keeps them.

## Main results

* `decodeGoalChange_toJson` — a well-formed change survives writing and reading.
* `wellFormed_of_decodeGoalChange` — a decoded change is well formed.
-/

namespace TianmaCoder

namespace Goal

open Checked

structure GoalBlockReason.WellFormed (reason : GoalBlockReason) : Prop where
  code : Text.isLowerKebab reason.code = true
  message : Text.isNormalized reason.message = true

structure GoalRef.WellFormed (ref : GoalRef) : Prop where
  id : ref.id ≠ ""
  revision : IsPositive ref.revision

structure GoalSnapshot.WellFormed (goal : GoalSnapshot) : Prop where
  ref : goal.toGoalRef.WellFormed
  objective : Text.isNormalized goal.objective = true
  maxGoalRounds : IsPositive goal.maxGoalRounds
  blocked_iff : goal.phase = .blocked ↔ goal.blockedReason.isSome = true
  reason : ∀ reason ∈ goal.blockedReason, reason.WellFormed

structure GoalSnapshotChange.WellFormed (change : GoalSnapshotChange) : Prop where
  goal : change.goal.WellFormed
  roundsStarted : change.roundsStarted ≤ Json.maxSafeInteger
  createdAt : 0 ≤ change.createdAt
  updatedAt : change.createdAt ≤ change.updatedAt
  updatedAt_le : change.updatedAt ≤ Json.maxSafeInteger

/-- Every field keeps its rule. -/
def GoalChange.WellFormed : GoalChange → Prop
  | .snapshot change => change.WellFormed
  | .clear cleared clearedAt =>
    cleared.WellFormed ∧ 0 ≤ clearedAt ∧ clearedAt ≤ Json.maxSafeInteger

/-! ## Fields -/

theorem safeInt?_int {n : ℤ} (hlow : 0 ≤ n) (hhigh : n ≤ Json.maxSafeInteger) :
    Json.safeInt? (some (.int n)) = some n := by
  have hsafe : Json.isSafeInteger n = true := by
    simp only [Json.isSafeInteger, decide_eq_true_eq]
    omega
  simp [Json.safeInt?, hsafe]

theorem positiveInteger_nat {n : ℕ} (h : IsPositive n) (field : String) :
    positiveInteger (some (.nat n)) field = .ok n := by
  have hsafe := safeInt?_int (n := n) (by omega) (by exact_mod_cast h.2)
  have hpos : ¬(n : ℤ) < 1 := by
    have := h.1
    omega
  simp only [positiveInteger, Json.nat, Int.ofNat_eq_natCast, hsafe, hpos, if_false, pure_eq,
    Int.toNat_natCast]

theorem nonNegativeInteger_int {n : ℤ} (hlow : 0 ≤ n) (hhigh : n ≤ Json.maxSafeInteger)
    (field : String) : nonNegativeInteger (some (.int n)) field = .ok n.toNat := by
  simp only [nonNegativeInteger, safeInt?_int hlow hhigh, not_lt.mpr hlow, if_false, pure_eq]

variable {value : Option Json}

theorem nonNegativeInteger_ok {field : String} {n : ℕ} (h : nonNegativeInteger value field = .ok n) :
    value = some (.nat n) ∧ n ≤ Json.maxSafeInteger := by
  unfold nonNegativeInteger at h
  cases hsafe : Json.safeInt? value with
  | none => simp [hsafe] at h
  | some m =>
    simp only [hsafe, throw_eq, guard_ok_iff, pure_eq, Except.ok.injEq] at h
    have hbound := Json.isSafeInteger_of_safeInt? hsafe
    simp only [Json.isSafeInteger, decide_eq_true_eq] at hbound
    have hvalue := Json.eq_int_of_safeInt? hsafe
    obtain ⟨hlow, rfl⟩ := h
    refine ⟨?_, by omega⟩
    rw [hvalue, Json.nat, Int.ofNat_eq_natCast, Int.toNat_of_nonneg (not_lt.mp hlow)]

theorem positiveInteger_ok {field : String} {n : ℕ} (h : positiveInteger value field = .ok n) :
    value = some (.nat n) ∧ IsPositive n := by
  unfold positiveInteger at h
  cases hsafe : Json.safeInt? value with
  | none => simp [hsafe] at h
  | some m =>
    simp only [hsafe, throw_eq, guard_ok_iff, pure_eq, Except.ok.injEq] at h
    have hbound := Json.isSafeInteger_of_safeInt? hsafe
    simp only [Json.isSafeInteger, decide_eq_true_eq] at hbound
    have hvalue := Json.eq_int_of_safeInt? hsafe
    obtain ⟨hlow, rfl⟩ := h
    refine ⟨?_, by omega, by omega⟩
    rw [hvalue, Json.nat, Int.ofNat_eq_natCast, Int.toNat_of_nonneg (by omega)]

theorem checkedStr_str {s : String} (check : String → Bool) (h : check s = true) (error : String) :
    checkedStr (some (.str s)) check error = .ok s := by
  simp [checkedStr, h]

theorem checkedStr_ok {check : String → Bool} {error s : String}
    (h : checkedStr value check error = .ok s) : value = some (.str s) ∧ check s = true := by
  unfold checkedStr at h
  split at h
  · next t =>
      by_cases ht : check t = true
      · simp only [ht, if_true, pure_eq, Except.ok.injEq] at h
        exact ⟨by rw [h], h ▸ ht⟩
      · simp [ht] at h
  · cases h

theorem GoalPhase.ofName?_name (phase : GoalPhase) : GoalPhase.ofName? phase.name = some phase := by
  cases phase <;> rfl

theorem SnapshotOperation.ofName?_name (operation : SnapshotOperation) :
    SnapshotOperation.ofName? operation.name = some operation := by
  cases operation <;> rfl

/-! ## Reading back -/

theorem decodeBlockReason_toJson {reason : GoalBlockReason} (h : reason.WellFormed) :
    decodeBlockReason (some reason.toJson) = .ok reason := by
  have hkeys : keysOf reason.toJson = "code,message" := by
    simp only [keysOf, GoalBlockReason.toJson, List.map]
    decide +kernel
  have hcode : reason.toJson.get? "code" = some (.str reason.code) := rfl
  have hmessage : reason.toJson.get? "message" = some (.str reason.message) := by
    simp [GoalBlockReason.toJson]
  have hobject : reason.toJson.isObject = true := rfl
  simp only [decodeBlockReason, Option.getD_some, hobject, hkeys, and_self, not_true, if_false,
    hcode, hmessage, checkedStr_str _ h.code, checkedStr_str _ h.message, ok_bind, pure_eq]

theorem decodeRef_toJson {ref : GoalRef} (h : ref.WellFormed) :
    decodeRef (some ref.toJson) = .ok ref := by
  have hkeys : keysOf ref.toJson = "id,revision" := by
    simp only [keysOf, GoalRef.toJson, List.map]
    decide +kernel
  have hid : ref.toJson.get? "id" = some (.str ref.id) := rfl
  have hrevision : ref.toJson.get? "revision" = some (.nat ref.revision) := by
    simp [GoalRef.toJson]
  have hobject : ref.toJson.isObject = true := rfl
  have hne : decide (ref.id ≠ "") = true := by simp [h.id]
  simp only [decodeRef, Option.getD_some, hobject, hkeys, and_self, not_true, if_false, hid,
    hrevision, checkedStr_str (fun s => decide (s ≠ "")) hne,
    positiveInteger_nat h.revision, ok_bind, pure_eq]

variable {goal : GoalSnapshot}

/-- The keys of a snapshot that has its blocker exactly when it is blocked. -/
theorem keysOf_snapshot (h : goal.WellFormed) :
    keysOf goal.toJson = if goal.phase = .blocked then
      "blockedReason,id,maxGoalRounds,objective,phase,revision"
      else "id,maxGoalRounds,objective,phase,revision" := by
  cases hreason : goal.blockedReason with
  | none =>
    have hphase : goal.phase ≠ .blocked := by
      intro hblocked
      have hsome := h.blocked_iff.mp hblocked
      simp [hreason] at hsome
    simp only [keysOf, GoalSnapshot.toJson, hreason, hphase, if_false, Option.toList_none,
      List.map_nil, List.append_nil, List.map]
    decide +kernel
  | some reason =>
    have hphase : goal.phase = .blocked := h.blocked_iff.mpr (by simp [hreason])
    simp only [keysOf, GoalSnapshot.toJson, hreason, hphase, if_true, Option.toList_some,
      List.map, List.cons_append, List.nil_append]
    decide +kernel

theorem decodeBlockedReason_toJson (h : goal.WellFormed) :
    decodeBlockedReason goal.phase goal.toJson = .ok goal.blockedReason := by
  cases hreason : goal.blockedReason with
  | none =>
    have hphase : goal.phase ≠ .blocked := by
      intro hblocked
      have hsome := h.blocked_iff.mp hblocked
      simp [hreason] at hsome
    simp only [decodeBlockedReason, hphase, if_false, pure_eq]
  | some reason =>
    have hphase : goal.phase = .blocked := h.blocked_iff.mpr (by simp [hreason])
    have hget : goal.toJson.get? "blockedReason" = some reason.toJson := by
      simp [GoalSnapshot.toJson, hreason]
    simp only [decodeBlockedReason, hphase, if_true, hget,
      decodeBlockReason_toJson (h.reason reason hreason)]
    rfl

theorem decodeSnapshot_toJson (h : goal.WellFormed) :
    decodeSnapshot (some goal.toJson) = .ok goal := by
  have hobject : goal.toJson.isObject = true := rfl
  have hid : goal.toJson.get? "id" = some (.str goal.id) := rfl
  have hrevision : goal.toJson.get? "revision" = some (.nat goal.revision) := by
    simp [GoalSnapshot.toJson]
  have hobjective : goal.toJson.get? "objective" = some (.str goal.objective) := by
    simp [GoalSnapshot.toJson]
  have hphase : goal.toJson.get? "phase" = some (.str goal.phase.name) := by
    simp [GoalSnapshot.toJson]
  have hmax : goal.toJson.get? "maxGoalRounds" = some (.nat goal.maxGoalRounds) := by
    simp [GoalSnapshot.toJson]
  have hne : decide (goal.id ≠ "") = true := by simp [h.ref.id]
  have hname : (GoalPhase.ofName? goal.phase.name).isSome = true := by
    rw [GoalPhase.ofName?_name]
    rfl
  have hkeys := keysOf_snapshot h
  have hnot : ¬(keysOf goal.toJson ≠ if goal.phase = .blocked then
      "blockedReason,id,maxGoalRounds,objective,phase,revision"
      else "id,maxGoalRounds,objective,phase,revision") := not_not.mpr hkeys
  simp only [decodeSnapshot, Option.getD_some, hobject, not_true, if_false, hid, hobjective, hphase,
    checkedStr_str (fun s => decide (s ≠ "")) hne, checkedStr_str _ h.objective,
    checkedStr_str (fun s => (GoalPhase.ofName? s).isSome) hname, ok_bind,
    GoalPhase.ofName?_name, hnot, hrevision, hmax, positiveInteger_nat h.ref.revision,
    positiveInteger_nat h.maxGoalRounds, decodeBlockedReason_toJson h, pure_eq]

theorem decodeSnapshotChange_toJson {change : GoalSnapshotChange} (h : change.WellFormed) :
    decodeSnapshotChange (GoalChange.snapshot change).toJson = .ok (.snapshot change) := by
  have hkeys : ¬keysOf (GoalChange.snapshot change).toJson ≠
      "createdAt,goal,kind,operation,roundsStarted,updatedAt,version" := by
    simp only [keysOf, GoalChange.toJson, List.map]
    decide +kernel
  have hoperation : (GoalChange.snapshot change).toJson.get? "operation" =
      some (.str change.operation.name) := by simp [GoalChange.toJson]
  have hcreatedAt : (GoalChange.snapshot change).toJson.get? "createdAt" =
      some (.int change.createdAt) := by simp [GoalChange.toJson]
  have hupdatedAt : (GoalChange.snapshot change).toJson.get? "updatedAt" =
      some (.int change.updatedAt) := by simp [GoalChange.toJson]
  have hgoal : (GoalChange.snapshot change).toJson.get? "goal" = some change.goal.toJson := by
    simp [GoalChange.toJson]
  have hrounds : (GoalChange.snapshot change).toJson.get? "roundsStarted" =
      some (.int change.roundsStarted) := by simp [GoalChange.toJson, Json.nat]
  have hname : (SnapshotOperation.ofName? change.operation.name).isSome = true := by
    rw [SnapshotOperation.ofName?_name]
    rfl
  have hcreated := h.createdAt
  have hupdated := h.updatedAt
  have hbound := h.updatedAt_le
  have horder : ¬change.updatedAt.toNat < change.createdAt.toNat := by omega
  have hcreated' : (change.createdAt.toNat : ℤ) = change.createdAt := Int.toNat_of_nonneg hcreated
  have hupdated' : (change.updatedAt.toNat : ℤ) = change.updatedAt :=
    Int.toNat_of_nonneg (hcreated.trans hupdated)
  have hstarted : (change.roundsStarted : ℤ) ≤ Json.maxSafeInteger := by
    exact_mod_cast h.roundsStarted
  simp only [decodeSnapshotChange, hoperation, hkeys, hcreatedAt, hupdatedAt, hgoal, hrounds,
    checkedStr_str (fun s => (SnapshotOperation.ofName? s).isSome) hname,
    SnapshotOperation.ofName?_name, Option.getD_some, if_false,
    nonNegativeInteger_int hcreated (hupdated.trans hbound),
    nonNegativeInteger_int (hcreated.trans hupdated) hbound, horder, decodeSnapshot_toJson h.goal,
    nonNegativeInteger_int (Int.natCast_nonneg _) hstarted, ok_bind, pure_eq, hcreated', hupdated',
    Int.toNat_natCast]

theorem decodeClear_toJson {cleared : GoalRef} {clearedAt : ℤ}
    (h : (GoalChange.clear cleared clearedAt).WellFormed) :
    decodeClear (GoalChange.clear cleared clearedAt).toJson = .ok (.clear cleared clearedAt) := by
  have hkeys : ¬keysOf (GoalChange.clear cleared clearedAt).toJson ≠
      "cleared,clearedAt,kind,operation,version" := by
    simp only [keysOf, GoalChange.toJson, List.map]
    decide +kernel
  have hcleared : (GoalChange.clear cleared clearedAt).toJson.get? "cleared" =
      some cleared.toJson := by simp [GoalChange.toJson]
  have hclearedAt : (GoalChange.clear cleared clearedAt).toJson.get? "clearedAt" =
      some (.int clearedAt) := by simp [GoalChange.toJson]
  simp only [decodeClear, hkeys, if_false, hcleared, hclearedAt, decodeRef_toJson h.1, ok_bind,
    nonNegativeInteger_int h.2.1 h.2.2, pure_eq, Int.toNat_of_nonneg h.2.1]

variable {change : GoalChange}

theorem decodeGoalChange_toJson (h : change.WellFormed) :
    decodeGoalChange change.toJson = .ok (some change) := by
  have hkind : change.toJson.get? "kind" = some (.str "goal/change") := by
    cases change <;> rfl
  have hversion : change.toJson.get? "version" = some (.nat GOAL_CHANGE_VERSION) := by
    cases change <;> simp [GoalChange.toJson]
  have hobject : change.toJson.isObject = true := by cases change <;> rfl
  simp only [decodeGoalChange, hkind, hversion, hobject, not_true, ne_eq, or_self, if_false]
  cases change with
  | snapshot change =>
    have hoperation : (GoalChange.snapshot change).toJson.get? "operation" ≠
        some (.str "clear") := by
      cases hop : change.operation <;> simp [GoalChange.toJson, SnapshotOperation.name, hop]
    simp only [hoperation, if_false, decodeSnapshotChange_toJson h]
    rfl
  | clear cleared clearedAt =>
    have hoperation : (GoalChange.clear cleared clearedAt).toJson.get? "operation" =
        some (.str "clear") := by simp [GoalChange.toJson]
    simp only [hoperation, if_true, decodeClear_toJson h]
    rfl

/-! ## What is accepted -/

theorem decodeBlockReason_ok {reason : GoalBlockReason} (h : decodeBlockReason value = .ok reason) :
    reason.WellFormed := by
  simp only [decodeBlockReason, throw_eq, guard_ok_iff, bind_ok_iff] at h
  obtain ⟨_, code, hcode, message, hmessage, hpure⟩ := h
  cases hpure
  exact ⟨(checkedStr_ok hcode).2, (checkedStr_ok hmessage).2⟩

theorem decodeRef_ok {ref : GoalRef} (h : decodeRef value = .ok ref) : ref.WellFormed := by
  simp only [decodeRef, throw_eq, guard_ok_iff, bind_ok_iff] at h
  obtain ⟨_, id, hid, revision, hrevision, hpure⟩ := h
  cases hpure
  exact ⟨by simpa using (checkedStr_ok hid).2, (positiveInteger_ok hrevision).2⟩

theorem decodeBlockedReason_ok {phase : GoalPhase} {value : Json} {reason : Option GoalBlockReason}
    (h : decodeBlockedReason phase value = .ok reason) :
    (phase = .blocked ↔ reason.isSome = true) ∧ ∀ r ∈ reason, r.WellFormed := by
  unfold decodeBlockedReason at h
  by_cases hphase : phase = .blocked
  · rw [if_pos hphase] at h
    cases hreason : decodeBlockReason (value.get? "blockedReason") with
    | error e => simp [hreason, Functor.map, Except.map] at h
    | ok r =>
      simp only [hreason, Functor.map, Except.map, Except.ok.injEq] at h
      subst h
      refine ⟨by simp [hphase], ?_⟩
      intro r' hr'
      cases hr'
      exact decodeBlockReason_ok hreason
  · rw [if_neg hphase, pure_eq, Except.ok.injEq] at h
    subst h
    exact ⟨by simp [hphase], by simp⟩

theorem decodeSnapshot_ok (h : decodeSnapshot value = .ok goal) : goal.WellFormed := by
  simp only [decodeSnapshot, throw_eq, guard_ok_iff, bind_ok_iff] at h
  obtain ⟨_, id, hid, objective, hobjective, name, _, _, revision, hrevision, rounds, hrounds,
    reason, hreason, hpure⟩ := h
  cases hpure
  have hblocked := decodeBlockedReason_ok hreason
  exact ⟨⟨by simpa using (checkedStr_ok hid).2, (positiveInteger_ok hrevision).2⟩,
    (checkedStr_ok hobjective).2, (positiveInteger_ok hrounds).2, hblocked.1, hblocked.2⟩

theorem decodeSnapshotChange_ok {value : Json} (h : decodeSnapshotChange value = .ok change) :
    change.WellFormed := by
  simp only [decodeSnapshotChange, throw_eq, guard_ok_iff, bind_ok_iff] at h
  obtain ⟨name, _, _, createdAt, hcreated, updatedAt, hupdated, horder, goal, hgoal, rounds,
    hrounds, hpure⟩ := h
  cases hpure
  have hbound := (nonNegativeInteger_ok hupdated).2
  refine ⟨decodeSnapshot_ok hgoal, (nonNegativeInteger_ok hrounds).2, ?_, ?_, ?_⟩
  · exact Int.natCast_nonneg _
  · exact Int.ofNat_le.mpr (not_lt.mp horder)
  · exact Int.ofNat_le.mpr hbound

theorem wellFormed_of_decodeGoalChange {value : Json}
    (h : decodeGoalChange value = .ok (some change)) : change.WellFormed := by
  simp only [decodeGoalChange, throw_eq, pure_eq] at h
  by_cases hkind : ¬value.isObject ∨ value.get? "kind" ≠ some (.str "goal/change")
  · rw [if_pos hkind] at h
    cases h
  · rw [if_neg hkind, guard_ok_iff] at h
    by_cases hclear : value.get? "operation" = some (.str "clear")
    · rw [if_pos hclear] at h
      have hdecoded : decodeClear value = .ok change := by
        cases hd : decodeClear value with
        | error e => simp [hd, Functor.map, Except.map] at h
        | ok c => simpa [hd, Functor.map, Except.map] using h.2
      simp only [decodeClear, throw_eq, guard_ok_iff, bind_ok_iff] at hdecoded
      obtain ⟨_, cleared, hcleared, clearedAt, hclearedAt, hpure⟩ := hdecoded
      cases hpure
      exact ⟨decodeRef_ok hcleared, Int.natCast_nonneg _,
        Int.ofNat_le.mpr (nonNegativeInteger_ok hclearedAt).2⟩
    · rw [if_neg hclear] at h
      have hdecoded : decodeSnapshotChange value = .ok change := by
        cases hd : decodeSnapshotChange value with
        | error e => simp [hd, Functor.map, Except.map] at h
        | ok c => simpa [hd, Functor.map, Except.map] using h.2
      exact decodeSnapshotChange_ok hdecoded

theorem createdAt_of_decodeGoalChange {change : GoalSnapshotChange} {decoded : GoalChange}
    (h : decodeGoalChange (GoalChange.snapshot change).toJson = .ok (some decoded)) :
    0 ≤ change.createdAt := by
  have hoperation : (GoalChange.snapshot change).toJson.get? "operation" ≠ some (.str "clear") := by
    cases hop : change.operation <;> simp [GoalChange.toJson, SnapshotOperation.name, hop]
  have hcreatedAt : (GoalChange.snapshot change).toJson.get? "createdAt" =
      some (.int change.createdAt) := by simp [GoalChange.toJson]
  have hkind : ¬(¬(GoalChange.snapshot change).toJson.isObject ∨
      (GoalChange.snapshot change).toJson.get? "kind" ≠ some (.str "goal/change")) := by
    simp [GoalChange.toJson, Json.isObject]
  simp only [decodeGoalChange, throw_eq, pure_eq] at h
  rw [if_neg hkind, guard_ok_iff, if_neg hoperation] at h
  cases hdecoded : decodeSnapshotChange (GoalChange.snapshot change).toJson with
  | error e =>
    rw [hdecoded] at h
    cases h.2
  | ok c =>
    simp only [decodeSnapshotChange, throw_eq, guard_ok_iff, bind_ok_iff, hcreatedAt] at hdecoded
    obtain ⟨_, _, _, createdAt, hcreated, _⟩ := hdecoded
    have hvalue := (nonNegativeInteger_ok hcreated).1
    simp only [Json.nat, Option.some.injEq, Json.int.injEq] at hvalue
    rw [hvalue]
    exact Int.natCast_nonneg _

end Goal

end TianmaCoder
