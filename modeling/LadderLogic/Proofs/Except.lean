import Mathlib

/-!
Taking computations that can fail apart where they have succeeded.
-/

set_option autoImplicit false

namespace LadderLogic

variable {ε α β : Type}

theorem bind_eq_ok {x : Except ε α} {f : α → Except ε β} {r : β} :
    x >>= f = .ok r ↔ ∃ a, x = .ok a ∧ f a = .ok r := by
  constructor
  · intro h
    cases x with
    | error e => cases h
    | ok a => exact ⟨a, rfl, h⟩
  · rintro ⟨a, rfl, h⟩
    exact h

theorem map_eq_ok {x : Except ε α} {f : α → β} {r : β} :
    x.map f = .ok r ↔ ∃ a, x = .ok a ∧ f a = r := by
  constructor
  · intro h
    cases x with
    | error e => cases h
    | ok a =>
      cases h
      exact ⟨a, rfl, rfl⟩
  · rintro ⟨a, rfl, rfl⟩
    rfl

theorem bind_eq_error {x : Except ε α} {f : α → Except ε β} {e : ε} :
    x >>= f = .error e ↔ x = .error e ∨ ∃ a, x = .ok a ∧ f a = .error e := by
  constructor
  · intro h
    cases x with
    | error d =>
      cases h
      exact .inl rfl
    | ok a => exact .inr ⟨a, rfl, h⟩
  · rintro (rfl | ⟨a, rfl, h⟩)
    · rfl
    · exact h

theorem map_eq_error {x : Except ε α} {f : α → β} {e : ε} : x.map f = .error e ↔ x = .error e := by
  cases x with
  | error d => simp [Except.map]
  | ok a => simp [Except.map]

/-- Every result of a list of computations is that of one of them. -/
theorem mem_of_mapM_eq_ok {f : α → Except ε β} {xs : List α} {ys : List β}
    (h : xs.mapM f = .ok ys) : ∀ y ∈ ys, ∃ x ∈ xs, f x = .ok y := by
  induction xs generalizing ys with
  | nil =>
    cases h
    simp
  | cons x xs ih =>
    rw [List.mapM_cons, bind_eq_ok] at h
    obtain ⟨y, hy, h⟩ := h
    obtain ⟨rest, hrest, h⟩ := bind_eq_ok.mp h
    cases h
    intro z hz
    rcases List.mem_cons.mp hz with rfl | hz
    · exact ⟨x, List.mem_cons_self, hy⟩
    · obtain ⟨w, hw, hwz⟩ := ih hrest z hz
      exact ⟨w, List.mem_cons_of_mem x hw, hwz⟩

/-- A check of every element of a list has let each of them through. -/
theorem eq_ok_of_forM {f : α → Except ε Unit} {xs : List α} {u : Unit}
    (h : xs.forM f = .ok u) : ∀ x ∈ xs, f x = .ok u := by
  induction xs with
  | nil => simp
  | cons x xs ih =>
    obtain ⟨v, hv, h⟩ := bind_eq_ok.mp h
    intro y hy
    rcases List.mem_cons.mp hy with rfl | hy
    · exact hv
    · exact ih h y hy

theorem sequence_eq_ok_iff {xs : List (Except ε α)} {ys : List α} :
    xs.mapM id = .ok ys ↔ xs = ys.map .ok := by
  induction xs generalizing ys with
  | nil =>
    cases ys with
    | nil => exact iff_of_true rfl rfl
    | cons y ys => exact iff_of_false nofun nofun
  | cons x xs ih =>
    rw [List.mapM_cons, bind_eq_ok]
    constructor
    · rintro ⟨y, hy, h⟩
      obtain ⟨rest, hrest, h⟩ := bind_eq_ok.mp h
      cases h
      rw [ih.mp hrest, List.map_cons]
      exact congrArg (· :: rest.map .ok) hy
    · intro h
      cases ys with
      | nil => cases h
      | cons y ys =>
        obtain ⟨rfl, hrest⟩ := List.cons.inj h
        exact ⟨y, rfl, bind_eq_ok.mpr ⟨ys, ih.mpr hrest, rfl⟩⟩

@[simp] theorem sequence_map_ok (ys : List α) :
    (ys.map (Except.ok : α → Except ε α)).mapM id = .ok ys :=
  sequence_eq_ok_iff.mpr rfl

/-- A result that may be left out is one that is not in the list. -/
theorem sequence_filterMap {f : α → Except ε (Option β)} {g : α → Option (Except ε β)}
    (h : ∀ x, f x = (g x).elim (.ok none) (Except.map some)) (xs : List α) :
    (xs.mapM f).map (List.filterMap id) = (xs.filterMap g).mapM id := by
  induction xs with
  | nil => rfl
  | cons x xs ih =>
    rw [List.mapM_cons, h x, List.filterMap_cons]
    cases g x with
    | none =>
      rw [← ih]
      cases xs.mapM f <;> rfl
    | some result =>
      dsimp only [Option.elim]
      rw [List.mapM_cons, ← ih]
      cases result with
      | error e => rfl
      | ok y => cases xs.mapM f <;> rfl

theorem mem_of_sequence_eq_error {xs : List (Except ε α)} {e : ε} (h : xs.mapM id = .error e) :
    .error e ∈ xs := by
  induction xs with
  | nil => cases h
  | cons x xs ih =>
    rw [List.mapM_cons] at h
    rcases bind_eq_error.mp h with hx | ⟨y, -, h⟩
    · exact List.mem_cons.mpr (.inl hx.symm)
    · apply List.mem_cons_of_mem
      rcases bind_eq_error.mp h with hrest | ⟨ys, -, h⟩
      · exact ih hrest
      · cases h

theorem sequence_map {f : α → Except ε β} (xs : List α) : (xs.map f).mapM id = xs.mapM f := by
  rw [List.mapM_map]
  rfl

end LadderLogic
