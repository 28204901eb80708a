import Mathlib
import LadderLogic.FileTree

/-!
Where paths lead. A path leads to the same place in all trees with the same directories, so files
can be written, removed and moved without a change to where other paths lead.
-/

set_option autoImplicit false

namespace LadderLogic

namespace Path

/-- The parts of a path above its children. -/
def stemParts (p : Path) : List String :=
  match p.parts.reverse with
  | "" :: above => above.reverse
  | _ => p.parts

theorem child_eq (p : Path) (name : String) : p.child name = ⟨p.stemParts ++ [name]⟩ := by
  cases hparts : p.parts.reverse with
  | nil => simp [child, stemParts, hparts]
  | cons part above =>
    by_cases hpart : part = ""
    · subst hpart
      simp [child, stemParts, hparts]
    · simp [child, stemParts, hparts, hpart]

theorem parts_eq (p : Path) : p.parts = p.stemParts ∨ p.parts = p.stemParts ++ [""] := by
  unfold stemParts
  split
  next above h =>
    right
    rw [← List.reverse_reverse p.parts, h, List.reverse_cons]
  next => exact .inl rfl

end Path

namespace FileTree

variable {t u : FileTree} {p q : Place} {node : FileNode}

@[simp] theorem node?_nil (t : FileTree) : t.node? [] = some .directory := rfl

theorem node?_insert (hq : q ≠ []) (p : Place) :
    node? (t.insert q node) p = if p = q then some node else t.node? p := by
  unfold node?
  by_cases hp : p = []
  · simp [hp, hq.symm]
  · rw [if_neg hp, if_neg hp, Std.ExtTreeMap.getElem?_insert]
    by_cases hpq : p = q
    · simp [hpq]
    · simp [hpq, Ne.symm hpq]

theorem node?_erase (hq : q ≠ []) (p : Place) :
    node? (t.erase q) p = if p = q then none else t.node? p := by
  unfold node?
  by_cases hp : p = []
  · simp [hp, hq.symm]
  · rw [if_neg hp, if_neg hp, Std.ExtTreeMap.getElem?_erase]
    by_cases hpq : p = q
    · simp [hpq]
    · simp [hpq, Ne.symm hpq]

theorem isDirectoryAt_iff : t.isDirectoryAt p = true ↔ t.node? p = some .directory := by
  unfold isDirectoryAt
  split <;> simp_all

theorem isDirectoryAt_eq_false_iff : t.isDirectoryAt p = false ↔ t.node? p ≠ some .directory := by
  rw [ne_eq, ← isDirectoryAt_iff, Bool.not_eq_true]

theorem isDirectoryAt_congr (h : t.node? p = u.node? p) : t.isDirectoryAt p = u.isDirectoryAt p := by
  unfold isDirectoryAt
  rw [h]

@[simp] theorem isDirectoryAt_nil (t : FileTree) : t.isDirectoryAt [] = true := rfl

theorem ne_nil_of_isDirectoryAt_eq_false (h : t.isDirectoryAt q = false) : q ≠ [] := by
  rintro rfl
  simp at h

/-- A name that leads to a place of its own. -/
structure IsPlain (name : String) : Prop where
  idle : Path.isIdle name = false
  up : Path.isUp name = false
  short : name.utf8ByteSize ≤ nameLimit

theorem step?_of_isPlain {name : String} (hname : IsPlain name) (hp : t.isDirectoryAt p = true) :
    t.step? p name = some (p ++ [name]) := by
  simp [step?, hp, hname.idle, hname.up, hname.short]

theorem isDirectoryAt_of_step? {part : String} (h : t.step? p part = some q) :
    t.isDirectoryAt p = true := by
  unfold step? at h
  split_ifs at h with hp <;> simpa using hp

/-- A path that ends at a directory has started at one. -/
theorem isDirectoryAt_of_foldlM {parts : List String} (h : parts.foldlM t.step? p = some q)
    (hq : t.isDirectoryAt q = true) : t.isDirectoryAt p = true := by
  cases parts with
  | nil =>
    obtain rfl : p = q := by simpa using h
    exact hq
  | cons part parts =>
    simp only [List.foldlM_cons, Option.bind_eq_bind, Option.bind_eq_some_iff] at h
    obtain ⟨mid, hstep, -⟩ := h
    exact isDirectoryAt_of_step? hstep

theorem step?_congr (h : ∀ p, t.isDirectoryAt p = u.isDirectoryAt p) : t.step? = u.step? := by
  funext p part
  unfold step?
  rw [h p]

theorem place?_congr (h : ∀ p, t.isDirectoryAt p = u.isDirectoryAt p) (path : Path) :
    t.place? path = u.place? path := by
  unfold place?
  rw [step?_congr h]

theorem place?_eq_some_iff {path : Path} :
    t.place? path = some q ↔ path.isUsable = true ∧ path.parts.foldlM t.step? [] = some q := by
  unfold place?
  rw [Option.ite_none_right_eq_some]

theorem foldlM_stemParts {path : Path} (h : path.parts.foldlM t.step? p = some q)
    (hq : t.isDirectoryAt q = true) : path.stemParts.foldlM t.step? p = some q := by
  rcases path.parts_eq with hparts | hparts
  · rwa [← hparts]
  · rw [hparts, List.foldlM_append] at h
    simp only [List.foldlM_cons, List.foldlM_nil, Option.bind_eq_bind, Option.bind_eq_some_iff,
      Option.pure_def, Option.some.injEq] at h
    obtain ⟨mid, hmid, last, hstep, rfl⟩ := h
    have hidle : t.step? mid "" = some mid := by
      simp [step?, isDirectoryAt_of_step? hstep, Path.isIdle]
    obtain rfl : mid = last := Option.some.inj (hidle.symm.trans hstep)
    exact hmid

/-- A name alone leads to its place below the root. -/
theorem place?_singleton (t : FileTree) {name : String} (hname : IsPlain name)
    (husable : (Path.mk [name]).isUsable = true) : t.place? ⟨[name]⟩ = some [name] := by
  rw [place?_eq_some_iff]
  exact ⟨husable, by simp [step?_of_isPlain hname (isDirectoryAt_nil t)]⟩

/-- A child of a directory leads to its name below the directory. -/
theorem place?_child {path : Path} {name : String} (hpath : t.place? path = some p)
    (hp : t.isDirectoryAt p = true) (hname : IsPlain name) :
    t.place? (path.child name) = if (path.child name).isUsable then some (p ++ [name]) else none := by
  have hstem := foldlM_stemParts (place?_eq_some_iff.mp hpath).2 hp
  unfold place?
  rw [Path.child_eq, List.foldlM_append, hstem]
  simp [step?_of_isPlain hname hp]

end FileTree

end LadderLogic
