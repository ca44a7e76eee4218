import TianmaCoder.Agent.Inbox

/-!
# One mutation of the inbox

The facade normalises the coordinates of a splice before it logs them, and an independent
validator replays the logged splice. The two agree: the normalised coordinates name the same
items as the caller's, and a splice the facade logs is replayed to the standard result.

## Main results

* `actualStart_isIndex`, `actualDeleteCount_eq` — normalisation is the standard one.
* `apply_planned` — the projection accepts what the facade plans.
* `mutate_spec` — a mutation changes nothing, or it is the standard splice.
-/

namespace TianmaCoder

namespace Inbox

open Checked

/-! ## Coordinates -/

namespace InboxWorld

theorem actualStart_isIndex (length : ℕ) (start : Number) :
    (actualStart length start).IsIndex (Number.relativeStart length start) := by
  have hzero : Number.ofNat 0 = .finite ((0 : ℤ) : ℚ) := Number.ofNat_eq 0
  rcases Number.trunc_cases start with ⟨ht, rfl⟩ | ⟨ht, rfl⟩ | ⟨ht, rfl⟩ | ⟨ht, hi⟩ | ⟨n, ht, hi⟩
  · left
    simp only [actualStart, ht, Number.isNaN, if_true, Number.relativeStart,
      Number.toIntegerOrInfinity]
    rw [hzero, Number.lt_int, Number.ofNat_eq length, Number.min_int, Number.ofNat_eq]
    simp
  · left
    simp [actualStart, ht, Number.isNaN, Number.relativeStart, Number.toIntegerOrInfinity,
      Number.lt, Number.ofNat, Number.add, Number.max]
  · left
    simp [actualStart, ht, Number.isNaN, Number.relativeStart, Number.toIntegerOrInfinity,
      Number.lt, Number.ofNat, Number.min]
  · simp only [actualStart, ht, Number.isNaN, Number.relativeStart, hi]
    by_cases hlength : length = 0
    · right
      simp [Number.lt, Number.ofNat, Number.min, Number.isNaN, hlength]
    · right
      simp [Number.lt, Number.ofNat, Number.min, Number.isNaN, Nat.pos_of_ne_zero hlength]
  · left
    simp only [actualStart, ht, Number.isNaN, Number.relativeStart, hi]
    rw [hzero, Number.ofNat_eq length]
    by_cases hneg : n < 0
    · simp only [Number.lt_int, hneg, decide_true, if_true, Bool.false_eq_true, if_false,
        Number.add_int, Number.max_int, Number.ofNat_eq]
      congr 2
      omega
    · simp only [Number.lt_int, hneg, decide_false, Bool.false_eq_true, if_false,
        Number.min_int, Number.ofNat_eq]
      congr 2
      omega

/-- A start that is a position needs no normalisation. -/
theorem actualStart_ofNat {length i : ℕ} (hi : i ≤ length) :
    actualStart length (.ofNat i) = .ofNat i := by
  have hzero : Number.ofNat 0 = .finite ((0 : ℤ) : ℚ) := Number.ofNat_eq 0
  have hnonneg : ¬((i : ℤ) : ℚ) < 0 := by
    rw [Int.cast_natCast]
    exact not_lt.mpr (Nat.cast_nonneg i)
  have htrunc : Number.trunc (.ofNat i) = .ofNat i := by
    rw [Number.ofNat_eq, Number.trunc, if_neg (fun h => hnonneg h.1), Number.truncate_intCast]
  simp only [actualStart, htrunc]
  have hneg : ¬(i : ℤ) < 0 := by omega
  rw [hzero, Number.ofNat_eq, Number.ofNat_eq length]
  simp only [Number.isNaN, Bool.false_eq_true, if_false, Number.min_int, Number.lt_int, hneg,
    decide_false]
  congr 2
  omega

theorem actualDeleteCount_eq {length i : ℕ} (hi : i ≤ length) {position : Number}
    (h : position.IsIndex i) (deleteCount : Number) :
    actualDeleteCount length position deleteCount =
      .ofNat (Number.skipCount length i deleteCount) := by
  have hzero : Number.ofNat 0 = .finite ((0 : ℤ) : ℚ) := Number.ofNat_eq 0
  rw [actualDeleteCount, Number.ofNat_sub_index hi h]
  rcases Number.trunc_cases deleteCount with
    ⟨ht, rfl⟩ | ⟨ht, rfl⟩ | ⟨ht, rfl⟩ | ⟨ht, hi⟩ | ⟨n, ht, hi⟩
  · simp only [ht, Number.isNaN, if_true, Number.skipCount, Number.toIntegerOrInfinity]
    rw [hzero, Number.max_int, Number.ofNat_eq, Number.min_int, Number.ofNat_eq]
    congr 2
  · have hmax : Number.max .negInfinity (.ofNat 0) = .ofNat 0 := rfl
    simp only [ht, Number.isNaN, Bool.false_eq_true, if_false, hmax, Number.skipCount,
      Number.toIntegerOrInfinity]
    rw [hzero, Number.ofNat_eq, Number.min_int]
    congr 2
  · have hmax : Number.max .posInfinity (.ofNat 0) = .posInfinity := rfl
    simp only [ht, Number.isNaN, Bool.false_eq_true, if_false, hmax, Number.skipCount,
      Number.toIntegerOrInfinity]
    simp [Number.min, Number.isNaN, Number.ofNat, Number.lt]
  · have hmax : Number.max .negZero (.ofNat 0) = .ofNat 0 := by decide +kernel
    simp only [ht, Number.isNaN, Bool.false_eq_true, if_false, hmax, Number.skipCount, hi]
    rw [hzero, Number.ofNat_eq, Number.min_int, Number.ofNat_eq]
    congr 2
  · simp only [ht, Number.isNaN, Bool.false_eq_true, if_false, Number.skipCount, hi]
    rw [hzero, Number.max_int, Number.ofNat_eq, Number.min_int, Number.ofNat_eq]
    congr 2
    omega

theorem toSpliced_normalised {α : Type} (xs items : List α) (start deleteCount : Number) :
    Number.toSpliced xs (actualStart xs.length start)
        (actualDeleteCount xs.length (actualStart xs.length start) deleteCount) items =
      Number.toSpliced xs start deleteCount items := by
  have hle := Number.relativeStart_le xs.length start
  have hindex := actualStart_isIndex xs.length start
  have hstart := Number.relativeStart_index hle hindex
  apply Number.toSpliced_congr xs items hstart
  rw [actualDeleteCount_eq hle hindex]
  exact Number.skipCount_ofNat (Number.skipCount_le _ _ _)

/-- What the facade slices out is what the splice skips. -/
theorem slice_normalised {α : Type} (xs : List α) {i n : ℕ} (hi : i ≤ xs.length)
    (hn : n ≤ xs.length - i) {position : Number} (h : position.IsIndex i) :
    Number.slice xs position (position.add (.ofNat n)) = (xs.drop i).take n := by
  rw [Number.slice, Number.relativeStart_index hi h,
    Number.relativeStart_index (by omega) (h.add n), List.drop_take]
  congr 1
  omega

end InboxWorld

/-! ## Identities -/

theorem repeated_eq_none_iff (seen : List String) (messages : List UserMessage) :
    repeated seen messages = none ↔
      (messages.map (·.id)).Nodup ∧ ∀ message ∈ messages, message.id ∉ seen := by
  induction messages generalizing seen with
  | nil => simp [repeated]
  | cons message messages ih =>
    rw [repeated]
    by_cases hseen : message.id ∈ seen
    · simp [hseen]
    · rw [if_neg hseen, ih]
      simp only [List.map_cons, List.nodup_cons, List.mem_map, not_exists, not_and,
        List.mem_cons, not_or]
      constructor
      · intro h
        refine ⟨⟨fun m hm => (h.2 m hm).1, h.1⟩, ?_⟩
        rintro m (rfl | hm)
        · exact hseen
        · exact (h.2 m hm).2
      · intro h
        exact ⟨h.1.2, fun m hm => ⟨h.1.1 m hm, h.2 m (.inr hm)⟩⟩

theorem checkPending_ok_iff (state : InboxState) :
    checkPending state = .ok () ↔ (state.pending.map (·.id)).Nodup := by
  have hiff := repeated_eq_none_iff [] state.pending
  unfold checkPending
  cases hrepeated : repeated [] state.pending with
  | none => simpa using (hiff.mp hrepeated).1
  | some message =>
    have hne : ¬(state.pending.map (·.id)).Nodup := by
      intro hnodup
      have hnone := hiff.mpr ⟨hnodup, by simp⟩
      rw [hrepeated] at hnone
      cases hnone
    simpa using hne

namespace InboxState

@[simp] theorem setList_list (state : InboxState) (target : InboxTarget) :
    state.setList target (state.list target) = state := by
  cases target <;> rfl

/-- No identity is pending twice and both lists can exist. -/
structure Valid (state : InboxState) : Prop where
  nodup : (state.pending.map (·.id)).Nodup
  length_le : ∀ target, (state.list target).length ≤ Number.maxArrayLength

theorem Valid.init : Inbox.init.Valid where
  nodup := List.nodup_nil
  length_le := by
    intro target
    cases target <;> exact Nat.zero_le _

theorem Valid.setList {state : InboxState} (h : state.Valid) {target : InboxTarget}
    {messages : List UserMessage} (hlength : messages.length ≤ Number.maxArrayLength)
    (hcheck : checkPending (state.setList target messages) = .ok ()) :
    (state.setList target messages).Valid where
  nodup := (checkPending_ok_iff _).mp hcheck
  length_le := by
    intro other
    cases target with
    | nextTurn =>
      cases other with
      | nextTurn => exact hlength
      | nextStep => exact h.length_le .nextStep
    | nextStep =>
      cases other with
      | nextTurn => exact h.length_le .nextTurn
      | nextStep => exact hlength

/-- Fewer messages of one list leave valid lists valid. -/
theorem Valid.sublist {state : InboxState} (h : state.Valid) {target : InboxTarget}
    {messages : List UserMessage} (hsub : messages.Sublist (state.list target)) :
    checkPending (state.setList target messages) = .ok () := by
  rw [checkPending_ok_iff]
  refine h.nodup.sublist (List.Sublist.map _ ?_)
  cases target with
  | nextTurn => exact hsub.append_right _
  | nextStep => exact hsub.append_left _

theorem pending_setList_perm (state : InboxState) {target : InboxTarget}
    {messages removed inserted : List UserMessage}
    (h : (messages ++ removed).Perm (state.list target ++ inserted)) :
    ((state.setList target messages).pending ++ removed).Perm (state.pending ++ inserted) := by
  cases target with
  | nextTurn =>
    have hswap : (state.nextStep ++ removed).Perm (removed ++ state.nextStep) :=
      List.perm_append_comm
    have hback : (inserted ++ state.nextStep).Perm (state.nextStep ++ inserted) :=
      List.perm_append_comm
    simp only [pending, setList, List.append_assoc]
    refine (hswap.append_left messages).trans ?_
    rw [← List.append_assoc]
    refine (h.append_right _).trans ?_
    rw [List.append_assoc]
    exact hback.append_left _
  | nextStep =>
    simp only [pending, setList, List.append_assoc]
    exact h.append_left _

end InboxState

/-! ## Replaying what was planned -/

/-- The standard splice of one list: the lists after it and the messages it removes. -/
structure Standard (state : InboxState) (target : InboxTarget) (start deleteCount : Number)
    (inserted removed : List UserMessage) (next : InboxState) : Prop where
  splice : ∃ messages,
    Number.toSpliced (state.list target) start deleteCount inserted = .ok messages ∧
      next = state.setList target messages
  removed_eq : removed =
    ((state.list target).drop (Number.relativeStart (state.list target).length start)).take
      (Number.skipCount (state.list target).length
        (Number.relativeStart (state.list target).length start) deleteCount)

/-- A standard splice conserves messages. -/
theorem Standard.perm {state next : InboxState} {target : InboxTarget} {start deleteCount : Number}
    {inserted removed : List UserMessage}
    (h : Standard state target start deleteCount inserted removed next) :
    (next.pending ++ removed).Perm (state.pending ++ inserted) := by
  obtain ⟨messages, hsplice, rfl⟩ := h.splice
  have hmessages := (Number.toSpliced_eq_ok_iff.mp hsplice).2
  apply state.pending_setList_perm
  rw [h.removed_eq, ← hmessages]
  exact Number.spliceAt_perm _ _ _ _

namespace InboxWorld

variable {state : InboxState} {target : InboxTarget} {start deleteCount : Number}
  {inserted removed : List UserMessage} {discardRemoved : Bool} {data : InboxSplice}

theorem planSplice_none (hvalid : state.Valid)
    (h : planSplice state target start deleteCount inserted discardRemoved = .ok none) :
    inserted = [] ∧ Standard state target start deleteCount [] [] state := by
  have hle := Number.relativeStart_le (state.list target).length start
  have hcount := actualDeleteCount_eq hle (actualStart_isIndex _ start) deleteCount
  unfold planSplice at h
  by_cases hempty : actualDeleteCount (state.list target).length
      (actualStart (state.list target).length start) deleteCount = .ofNat 0 ∧ inserted = []
  · have hzero : Number.skipCount (state.list target).length
        (Number.relativeStart (state.list target).length start) deleteCount = 0 := by
      have heq := hcount.symm.trans hempty.1
      simpa [Number.ofNat] using heq
    refine ⟨hempty.2, ⟨state.list target, ?_, (state.setList_list target).symm⟩, ?_⟩
    · rw [Number.toSpliced_eq_ok_iff, hzero]
      have hself : Number.spliceAt (state.list target)
          (Number.relativeStart (state.list target).length start) 0 [] = state.list target := by
        simp [Number.spliceAt]
      rw [hself]
      exact ⟨not_lt.mpr (hvalid.length_le target), rfl⟩
    · rw [hzero, List.take_zero]
  · simp only [hempty, if_false, bind_ok_iff] at h
    obtain ⟨_, _, _, _, hpure⟩ := h
    cases hpure

theorem planSplice_some (hvalid : state.Valid)
    (h : planSplice state target start deleteCount inserted discardRemoved =
      .ok (some (data, removed))) :
    data.inserted = inserted ∧ ∃ next, applySplice state data = .ok next ∧ next.Valid ∧
      Standard state target start deleteCount inserted removed next := by
  have hle := Number.relativeStart_le (state.list target).length start
  have hindex := actualStart_isIndex (state.list target).length start
  have hcount := actualDeleteCount_eq hle hindex deleteCount
  have hskip := Number.skipCount_le (state.list target).length
    (Number.relativeStart (state.list target).length start) deleteCount
  unfold planSplice at h
  by_cases hempty : actualDeleteCount (state.list target).length
      (actualStart (state.list target).length start) deleteCount = .ofNat 0 ∧ inserted = []
  · simp [hempty] at h
  · simp only [hempty, if_false, bind_ok_iff] at h
    obtain ⟨candidate, hcandidate, ⟨⟩, hcheck, hpure⟩ := h
    rw [mapError_ok_iff] at hcandidate hcheck
    have hstandard : Number.toSpliced (state.list target) start deleteCount inserted =
        .ok candidate := (toSpliced_normalised _ _ _ _).symm.trans hcandidate
    have hlength := Number.length_toSpliced hcandidate
    simp only [pure_eq, Except.ok.injEq, Option.some.injEq, Prod.mk.injEq] at hpure
    obtain ⟨rfl, rfl⟩ := hpure
    rw [hcount] at hcandidate
    refine ⟨rfl, state.setList target candidate, ?_, hvalid.setList hlength hcheck,
      ⟨candidate, hstandard, rfl⟩, ?_⟩
    · have hbound := hvalid.length_le target
      have hremoved : (if actualDeleteCount (state.list target).length
          (actualStart (state.list target).length start) deleteCount = .ofNat 0 then none
          else some (actualDeleteCount (state.list target).length
            (actualStart (state.list target).length start) deleteCount)).getD (.ofNat 0) =
          .ofNat (Number.skipCount (state.list target).length
            (Number.relativeStart (state.list target).length start) deleteCount) := by
        rw [hcount]
        by_cases hzero : Number.ofNat (Number.skipCount (state.list target).length
            (Number.relativeStart (state.list target).length start) deleteCount) = .ofNat 0
        · simp [hzero]
        · simp [hzero]
      have hposition := hindex.isSafeInteger (hle.trans hbound)
      have hcounted := (Number.isIndex_ofNat (Number.skipCount (state.list target).length
        (Number.relativeStart (state.list target).length start) deleteCount))
      have hsafe := hcounted.isSafeInteger ((hskip.trans (Nat.sub_le _ _)).trans hbound)
      have hend := (hindex.add (Number.skipCount (state.list target).length
        (Number.relativeStart (state.list target).length start) deleteCount)).ofNat_lt
          (n := (state.list target).length) (by omega)
      simp only [applySplice, hremoved, hposition, hindex.lt_zero, hindex.ofNat_lt hle, hsafe,
        hcounted.lt_zero, hend, Bool.not_true, Bool.or_self, Bool.false_eq_true, if_false,
        hcandidate, ok_bind, hcheck, pure_eq]
    · rw [hcount]
      exact slice_normalised _ hle hskip hindex

end InboxWorld

/-! ## The log and the cell -/

theorem apply_valid {state next : InboxState} {event : LogEvent} (hvalid : state.Valid)
    (h : apply state event = .ok next) : next.Valid := by
  unfold apply at h
  cases hdata : event.spliced with
  | none =>
    simp only [hdata, pure_eq, Except.ok.injEq] at h
    exact h ▸ hvalid
  | some data =>
    simp only [hdata] at h
    cases hsplice : applySplice state data with
    | error cause => simp [hsplice] at h
    | ok spliced =>
      simp only [hsplice, pure_eq, Except.ok.injEq] at h
      subst h
      unfold applySplice at hsplice
      simp only [throw_eq] at hsplice
      rw [guard_ok_iff, bind_ok_iff] at hsplice
      obtain ⟨messages, hmessages, hrest⟩ := hsplice.2
      rw [bind_ok_iff] at hrest
      obtain ⟨_, hcheck, hpure⟩ := hrest
      cases hpure
      exact hvalid.setList (Number.length_toSpliced hmessages) hcheck

theorem fold_valid {log : List LogEvent} {state : InboxState} (h : fold log = .ok state) :
    state.Valid :=
  foldlM_induction (motive := fun _ state => state.Valid) h InboxState.Valid.init
    fun _ _ _ _ _ hvalid happly => apply_valid hvalid happly

namespace InboxWorld

/-- The log folds to `state`, and a live cell is the fold of the events it has seen. -/
structure Sound (w : InboxWorld) (state : InboxState) : Prop where
  fold_eq : fold w.log = .ok state
  observed_le : w.observed ≤ w.log.length
  cell_fold : w.registered = true → (w.log.drop w.observed).foldlM apply w.cell = .ok state

variable {w : InboxWorld} {state next : InboxState}

theorem Sound.valid (h : w.Sound state) : state.Valid := fold_valid h.fold_eq

theorem Sound.current_eq (h : w.Sound state) (hreg : w.registered = true) :
    w.current = .ok state := by
  simp [current, materialize, hreg, h.cell_fold hreg]

theorem current_error (hreg : w.registered = false) : ∃ e, w.current = .error e := by
  simp [current, hreg]

section

variable (h : w.Sound state)
include h

/-- A committed event takes the log to the next lists. -/
theorem Sound.commit {data : Option InboxSplice}
    (happly : apply state ⟨w.log.length, data⟩ = .ok next) : (w.commit data).Sound next where
  fold_eq := by
    have hfold := h.fold_eq
    rw [fold] at hfold ⊢
    rw [InboxWorld.commit, foldlM_snoc, hfold, ok_bind, happly]
  observed_le := by
    have hle := h.observed_le
    simp only [InboxWorld.commit, List.length_append]
    omega
  cell_fold := by
    intro hreg
    simp only [InboxWorld.commit]
    rw [List.drop_append_of_le_length h.observed_le, foldlM_snoc, h.cell_fold hreg, ok_bind, happly]

/-- The listener brings the cell to the end of the log. -/
theorem Sound.drive_eq (hreg : w.registered = true) :
    w.drive = { w with cell := state, observed := w.log.length } := by
  simp [drive, materialize, h.cell_fold hreg]

theorem Sound.drive (hreg : w.registered = true) : w.drive.Sound state where
  fold_eq := by
    rw [h.drive_eq hreg]
    exact h.fold_eq
  observed_le := by
    rw [h.drive_eq hreg]
  cell_fold := by
    intro _
    rw [h.drive_eq hreg]
    simp

theorem Sound.unregister : w.unregister.Sound state where
  fold_eq := h.fold_eq
  observed_le := h.observed_le
  cell_fold := by
    intro hreg
    cases hreg

theorem Sound.register : w.register.Sound state := by
  unfold InboxWorld.register
  by_cases hreg : w.registered = true
  · rw [if_pos hreg]
    exact h
  · rw [if_neg hreg]
    refine ⟨h.fold_eq, Nat.zero_le _, fun _ => ?_⟩
    rw [List.drop_zero]
    exact h.fold_eq

theorem Sound.emit (notes : List Notification) : (w.emit notes).Sound state :=
  ⟨h.fold_eq, h.observed_le, h.cell_fold⟩

theorem Sound.appendOther : w.appendOther.Sound state := by
  have hcommit : (w.commit none).Sound state := h.commit rfl
  unfold InboxWorld.appendOther
  by_cases hreg : w.registered = true
  · rw [if_pos hreg]
    exact hcommit.drive hreg
  · rw [if_neg hreg]
    exact hcommit

end

theorem appendSplice_cases (w : InboxWorld) (verdict : Verdict) (data : InboxSplice) :
    (∃ e, w.appendSplice verdict data = (w, .error e)) ∨
      ∃ registered, verdict = .publish registered ∧ data.start ≠ .negZero := by
  by_cases hzero : data.start = .negZero
  · exact .inl ⟨_, if_pos hzero⟩
  · cases verdict with
    | refuse message => exact .inl ⟨⟨message, none⟩, by simp [appendSplice, hzero]⟩
    | publish registered => exact .inr ⟨registered, rfl, hzero⟩

theorem Sound.appendSplice_publish (h : w.Sound state) (hreg : w.registered = true)
    {data : InboxSplice} (happly : apply state ⟨w.log.length, some data⟩ = .ok next)
    (hzero : data.start ≠ .negZero) (registered : Bool) : let w' := { w with
      log := w.log ++ [⟨w.log.length, some data⟩], registered := registered, cell := next,
      observed := w.log.length + 1 }
    w.appendSplice (.publish registered) data = (w', .ok data) ∧ w'.Sound next := by
  have hcommit := h.commit happly
  have hdrive := hcommit.drive_eq hreg
  refine ⟨?_, ⟨hcommit.fold_eq, ?_, ?_⟩⟩
  · simp only [appendSplice, hzero, if_false, hdrive]
    cases registered with
    | true => simp [InboxWorld.commit, ← hreg]
    | false => simp [InboxWorld.commit, InboxWorld.unregister]
  · simp
  · intro _
    simp

/-! ## Mutations -/

/-- What a mutation announces. -/
def announced (discardRemoved : Bool) (removed inserted : List UserMessage) : List Notification :=
  (if discardRemoved then removed.map .discarded else []) ++ inserted.map .inserted

/-- A mutation that returned: the standard splice, logged and announced. -/
structure Mutated (w : InboxWorld) (verdict : Verdict) (state : InboxState) (target : InboxTarget)
    (start deleteCount : Number) (inserted : List UserMessage) (discardRemoved : Bool)
    (w' : InboxWorld) (removed : List UserMessage) (next : InboxState) : Prop where
  sound : w'.Sound next
  standard : Standard state target start deleteCount inserted removed next
  emitted_eq : w'.emitted = w.emitted ++ announced discardRemoved removed inserted
  /-- Nothing was logged, or the append was published. -/
  committed : w' = w ∧ removed = [] ∨ verdict = .publish w'.registered

/-- A mutation throws and changes nothing, or it is the standard splice. -/
theorem mutate_spec (h : w.Sound state) (verdict : Verdict) (target : InboxTarget)
    (start deleteCount : Number) (inserted : List UserMessage) (discardRemoved : Bool) :
    (∃ e, w.mutate verdict target start deleteCount inserted discardRemoved = (w, .error e)) ∨
    ∃ w' removed next,
      w.mutate verdict target start deleteCount inserted discardRemoved = (w', .ok removed) ∧
      w.registered = true ∧
      Mutated w verdict state target start deleteCount inserted discardRemoved w' removed next := by
  by_cases hreg : w.registered = true
  · cases hplan : planSplice state target start deleteCount inserted discardRemoved with
    | error e =>
      left
      exact ⟨e, by simp only [mutate, h.current_eq hreg, hplan]⟩
    | ok plan =>
      cases plan with
      | none =>
        right
        have hnone := planSplice_none h.valid hplan
        refine ⟨w, [], state, by simp only [mutate, h.current_eq hreg, hplan], hreg, h,
          hnone.1 ▸ hnone.2, ?_, .inl ⟨rfl, rfl⟩⟩
        simp [announced, hnone.1]
      | some planned =>
        obtain ⟨data, removed⟩ := planned
        obtain ⟨hinserted, next, hsplice, hvalid, hstandard⟩ := planSplice_some h.valid hplan
        have happly : apply state ⟨w.log.length, some data⟩ = .ok next := by
          simp [apply, hsplice]
        rcases appendSplice_cases w verdict data with ⟨e, he⟩ | ⟨registered, rfl, hzero⟩
        · left
          exact ⟨e, by simp only [mutate, h.current_eq hreg, hplan, he]⟩
        · right
          have happend := h.appendSplice_publish hreg happly hzero registered
          refine ⟨_, removed, next, by simp only [mutate, h.current_eq hreg, hplan, happend.1]; rfl,
            hreg, happend.2.emit _, hstandard, ?_, .inr rfl⟩
          simp only [InboxWorld.emit, announced, hinserted]
  · left
    have hreg' : w.registered = false := by simpa using hreg
    obtain ⟨e, he⟩ := current_error hreg'
    exact ⟨e, by simp only [mutate, he]⟩

end InboxWorld

end Inbox

end TianmaCoder
