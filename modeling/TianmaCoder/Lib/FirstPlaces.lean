import Mathlib.Data.List.Basic

/-!
# The first places of a list

The places of the elements of a list that have a property, and the list in which a function is
applied at the first of them.

## Main definitions

* `places` — where the elements with the property are.
* `mapFirst` — the list with a function applied to the first of them.

## Main results

* `mapFirst_eq_mapIdx` — the function is applied at the first places, and nowhere else.
* `places_mapFirst` — the places that are left when the function takes the property away.
-/

namespace TianmaCoder

namespace FirstPlaces

variable {α : Type*} {p : α → Bool} {f : α → α}

/-- The places of the elements with the property, the first element being at `start`. -/
def places (p : α → Bool) : ℕ → List α → List ℕ
  | _, [] => []
  | start, x :: xs => if p x then start :: places p (start + 1) xs else places p (start + 1) xs

/-- Apply a function to the first elements with the property. -/
def mapFirst (p : α → Bool) (f : α → α) : ℕ → List α → List α
  | 0, xs => xs
  | _, [] => []
  | n + 1, x :: xs => if p x then f x :: mapFirst p f n xs else x :: mapFirst p f (n + 1) xs

@[simp] theorem mapFirst_zero (xs : List α) : mapFirst p f 0 xs = xs := by
  cases xs <;> rfl

@[simp] theorem mapFirst_nil (n : ℕ) : mapFirst p f n [] = [] := by
  cases n <;> rfl

@[simp] theorem length_places (start : ℕ) (xs : List α) :
    (places p start xs).length = xs.countP p := by
  induction xs generalizing start with
  | nil => rfl
  | cons x xs ih =>
    rw [places, List.countP_cons]
    by_cases hx : p x = true
    · simp [hx, ih]
    · simp [hx, ih]

theorem mem_places_bounds {start place : ℕ} {xs : List α} (h : place ∈ places p start xs) :
    start ≤ place ∧ place < start + xs.length := by
  induction xs generalizing start with
  | nil => cases h
  | cons x xs ih =>
    rw [places] at h
    rw [List.length_cons]
    split at h
    · rcases List.mem_cons.mp h with rfl | h
      · omega
      · have hrest := ih h
        omega
    · have hrest := ih h
      omega

/-- At every place is an element with the property. -/
theorem exists_of_mem_places {start place : ℕ} {xs : List α} (h : place ∈ places p start xs) :
    ∃ x, xs[place - start]? = some x ∧ p x = true := by
  induction xs generalizing start with
  | nil => cases h
  | cons x xs ih =>
    rw [places] at h
    have hlater : place ∈ places p (start + 1) xs →
        ∃ y, (x :: xs)[place - start]? = some y ∧ p y = true := by
      intro hmem
      obtain ⟨y, hget, hy⟩ := ih hmem
      have hsucc : place - start = place - (start + 1) + 1 := by
        have hbounds := mem_places_bounds hmem
        omega
      rw [hsucc, List.getElem?_cons_succ]
      exact ⟨y, hget, hy⟩
    split at h
    · next hx =>
        rcases List.mem_cons.mp h with rfl | h
        · rw [Nat.sub_self]
          exact ⟨x, rfl, hx⟩
        · exact hlater h
    · exact hlater h

/-- Where an element with the property is among those that have it. -/
theorem getElem?_filter_countP {xs : List α} {place : ℕ} {x : α} (hx : xs[place]? = some x)
    (hp : p x = true) : (xs.filter p)[(xs.take place).countP p]? = some x := by
  induction xs generalizing place with
  | nil => cases hx
  | cons first xs ih =>
    cases place with
    | zero =>
      rw [List.getElem?_cons_zero, Option.some.injEq] at hx
      subst hx
      simp [hp]
    | succ place =>
      rw [List.getElem?_cons_succ] at hx
      rw [List.take_succ_cons, List.countP_cons, List.filter_cons]
      by_cases hfirst : p first = true
      · rw [if_pos hfirst, if_pos hfirst, List.getElem?_cons_succ]
        exact ih hx
      · rw [if_neg hfirst, if_neg hfirst]
        exact ih hx

theorem places_succ (start : ℕ) (xs : List α) :
    places p (start + 1) xs = (places p start xs).map (· + 1) := by
  induction xs generalizing start with
  | nil => rfl
  | cons x xs ih =>
    rw [places, places, ih]
    split <;> simp

theorem succ_mem_take_places {start place n : ℕ} {xs : List α} :
    place + 1 ∈ (places p (start + 1) xs).take n ↔ place ∈ (places p start xs).take n := by
  rw [places_succ, ← List.map_take, List.mem_map]
  constructor
  · rintro ⟨other, hother, heq⟩
    rw [← Nat.succ.inj heq]
    exact hother
  · exact fun h => ⟨place, h, rfl⟩

theorem mapFirst_eq_mapIdx (n : ℕ) (xs : List α) :
    mapFirst p f n xs = xs.mapIdx fun place x =>
      if place ∈ (places p 0 xs).take n then f x else x := by
  induction xs generalizing n with
  | nil => simp
  | cons x xs ih =>
    cases n with
    | zero =>
      rw [mapFirst_zero]
      refine (List.ext_getElem? fun place => ?_).symm
      rw [List.getElem?_mapIdx]
      simp
    | succ n =>
      rw [mapFirst, List.mapIdx_cons, places]
      split
      · have hzero : 0 ∈ (0 :: places p (0 + 1) xs).take (n + 1) := by simp
        rw [if_pos hzero, ih]
        congr 2
        funext place y
        have hrest : place + 1 ∈ (0 :: places p (0 + 1) xs).take (n + 1) ↔
            place ∈ (places p 0 xs).take n := by
          rw [List.take_succ_cons, List.mem_cons, succ_mem_take_places]
          simp
        simp only [hrest]
      · have hzero : 0 ∉ (places p (0 + 1) xs).take (n + 1) := by
          intro hmem
          have hbounds := mem_places_bounds (List.mem_of_mem_take hmem)
          omega
        rw [if_neg hzero, ih]
        congr 2
        funext place y
        simp only [succ_mem_take_places]

theorem places_mapFirst (hf : ∀ x, p x = true → p (f x) = false) (n start : ℕ) (xs : List α) :
    places p start (mapFirst p f n xs) = (places p start xs).drop n := by
  induction xs generalizing n start with
  | nil => simp [places]
  | cons x xs ih =>
    cases n with
    | zero => simp
    | succ n =>
      rw [mapFirst]
      by_cases hx : p x = true
      · rw [if_pos hx, places, places, if_pos hx, if_neg (by simp [hf x hx]), ih,
          List.drop_succ_cons]
      · rw [if_neg hx, places, places, if_neg hx, if_neg hx, ih]

end FirstPlaces

end TianmaCoder
