import LadderLogic.Proofs.FileTree.Places

/-!
Creating directories. What is there stays there, a directory that has been created is found, and
one that is there already is created without a change.
-/

set_option autoImplicit false

namespace LadderLogic.FileTree

variable {t u v : FileTree} {p q : Place} {path : Path}

/-- The second tree holds all that the first one does. -/
def Grows (t u : FileTree) : Prop := ∀ p node, t.node? p = some node → u.node? p = some node

theorem Grows.refl (t : FileTree) : Grows t t := fun _ _ h => h

theorem Grows.trans (h : Grows t u) (h' : Grows u v) : Grows t v :=
  fun p node hp => h' p node (h p node hp)

theorem Grows.isDirectoryAt (h : Grows t u) (hp : t.isDirectoryAt p = true) :
    u.isDirectoryAt p = true :=
  isDirectoryAt_iff.mpr (h p _ (isDirectoryAt_iff.mp hp))

theorem Grows.step? (h : Grows t u) {part : String} (hstep : t.step? p part = some q) :
    u.step? p part = some q := by
  have hp := isDirectoryAt_of_step? hstep
  unfold FileTree.step? at hstep ⊢
  rw [hp] at hstep
  rw [h.isDirectoryAt hp]
  exact hstep

theorem Grows.foldlM (h : Grows t u) {parts : List String}
    (hparts : parts.foldlM t.step? p = some q) : parts.foldlM u.step? p = some q := by
  induction parts generalizing p with
  | nil => exact hparts
  | cons part parts ih =>
    simp only [List.foldlM_cons, Option.bind_eq_bind, Option.bind_eq_some_iff] at hparts ⊢
    obtain ⟨mid, hstep, hrest⟩ := hparts
    exact ⟨mid, h.step? hstep, ih hrest⟩

theorem Grows.place? (h : Grows t u) (hpath : t.place? path = some p) : u.place? path = some p := by
  rw [place?_eq_some_iff] at hpath ⊢
  exact ⟨hpath.1, h.foldlM hpath.2⟩

theorem grows_insert {node : FileNode} (hq : t.node? q = none) : Grows t (t.insert q node) := by
  have hne : q ≠ [] := by
    rintro rfl
    simp at hq
  intro p found hp
  rw [node?_insert hne, if_neg]
  · exact hp
  · rintro rfl
    exact absurd hp (by simp [hq])

theorem grows_createFrom (t : FileTree) (start : Place) (parts : List String) :
    Grows t (t.createFrom start parts).1 := by
  induction parts generalizing t start with
  | nil => exact .refl t
  | cons part parts ih =>
    unfold createFrom
    cases hstep : t.step? start part with
    | none => exact .refl t
    | some place =>
      cases hnode : t.node? place with
      | none => simpa [hnode] using (grows_insert hnode).trans (ih _ place)
      | some node =>
        cases node with
        | file content => simpa [hnode] using Grows.refl t
        | directory => simpa [hnode] using ih t place

theorem grows_createDirectory (t : FileTree) (path : Path) :
    Grows t (t.createDirectory path).1 := by
  unfold createDirectory
  split_ifs
  · exact .refl t
  · exact grows_createFrom t [] _
  · exact grows_createFrom t [] _

/-- Where directories have been created, the parts lead to one. -/
theorem reached_of_createFrom {parts : List String} {start : Place}
    (hstart : t.isDirectoryAt start = true) (h : t.createFrom start parts = (u, true)) :
    ∃ p, parts.foldlM u.step? start = some p ∧ u.isDirectoryAt p = true := by
  induction parts generalizing t start with
  | nil =>
    obtain rfl : t = u := congrArg Prod.fst h
    exact ⟨start, rfl, hstart⟩
  | cons part parts ih =>
    have hgrows := grows_createFrom t start (part :: parts)
    rw [h] at hgrows
    unfold createFrom at h
    cases hstep : t.step? start part with
    | none => simp [hstep] at h
    | some place =>
      have hreached : ∃ p, parts.foldlM u.step? place = some p ∧ u.isDirectoryAt p = true := by
        cases hnode : t.node? place with
        | none =>
          have hplace : place ≠ [] := by
            rintro rfl
            simp at hnode
          have hcreated : isDirectoryAt (t.insert place .directory) place = true := by
            rw [isDirectoryAt_iff, node?_insert hplace, if_pos rfl]
          exact ih hcreated (by simpa [hstep, hnode] using h)
        | some node =>
          cases node with
          | file content => simp [hstep, hnode] at h
          | directory =>
            exact ih (isDirectoryAt_iff.mpr hnode) (by simpa [hstep, hnode] using h)
      obtain ⟨p, hp, hdirectory⟩ := hreached
      refine ⟨p, ?_, hdirectory⟩
      simp [hgrows.step? hstep, hp]

/-- Nothing is created on the way to a directory that is there. -/
theorem createFrom_of_reached {parts : List String} {start : Place}
    (h : parts.foldlM t.step? start = some p) (hp : t.isDirectoryAt p = true) :
    t.createFrom start parts = (t, true) := by
  induction parts generalizing start with
  | nil => rfl
  | cons part parts ih =>
    simp only [List.foldlM_cons, Option.bind_eq_bind, Option.bind_eq_some_iff] at h
    obtain ⟨place, hstep, hrest⟩ := h
    have hplace := isDirectoryAt_iff.mp (isDirectoryAt_of_foldlM hrest hp)
    unfold createFrom
    simp [hstep, hplace, ih hrest]

/-- The parts that lead nowhere do not matter on the way to a directory. -/
theorem foldlM_filter_iff {parts : List String} {start : Place} (hp : t.isDirectoryAt p = true) :
    (parts.filter fun part => !Path.isIdle part).foldlM t.step? start = some p ↔
      parts.foldlM t.step? start = some p := by
  induction parts generalizing start with
  | nil => simp
  | cons part parts ih =>
    by_cases hidle : Path.isIdle part = true
    · rw [List.filter_cons_of_neg (by simp [hidle]), ih, List.foldlM_cons]
      constructor
      · intro h
        have hstart := isDirectoryAt_of_foldlM h hp
        simp [step?, hstart, hidle, h]
      · intro h
        simp only [Option.bind_eq_bind, Option.bind_eq_some_iff] at h
        obtain ⟨mid, hstep, hrest⟩ := h
        have hmid : t.step? start part = some start := by
          simp [step?, isDirectoryAt_of_step? hstep, hidle]
        obtain rfl : start = mid := Option.some.inj (hmid.symm.trans hstep)
        exact hrest
    · rw [List.filter_cons_of_pos (by simp [hidle]), List.foldlM_cons, List.foldlM_cons]
      simp only [Option.bind_eq_bind, Option.bind_eq_some_iff, ih]

theorem isDirectory_iff : t.isDirectory path = true ↔
    ∃ p, t.place? path = some p ∧ t.isDirectoryAt p = true := by
  unfold isDirectory
  rw [Option.any_eq_true]

theorem isDirectory_of_createDirectory (h : t.createDirectory path = (u, true)) :
    u.isDirectory path = true := by
  unfold createDirectory at h
  by_cases husable : path.isUsable = true
  · rw [husable] at h
    split_ifs at h with hpoint
    · simp at hpoint
    · simp only [Prod.mk.injEq] at h
      obtain ⟨rfl, hdirectory⟩ := h
      exact hdirectory
    · obtain ⟨p, hp, hdirectory⟩ := reached_of_createFrom (isDirectoryAt_nil t) h
      have hparts := (foldlM_filter_iff hdirectory).mp hp
      exact isDirectory_iff.mpr ⟨p, place?_eq_some_iff.mpr ⟨husable, hparts⟩, hdirectory⟩
  · simp [husable] at h

/-- A way to a directory passes through directories only. -/
theorem reached_dropLast {parts : List String} {start : Place}
    (h : parts.foldlM t.step? start = some p) (hp : t.isDirectoryAt p = true) :
    ∃ q, parts.dropLast.foldlM t.step? start = some q ∧ t.isDirectoryAt q = true := by
  rcases parts.eq_nil_or_concat with rfl | ⟨above, last, rfl⟩
  · exact ⟨p, h, hp⟩
  · rw [List.concat_eq_append, List.foldlM_append] at h
    simp only [Option.bind_eq_bind, Option.bind_eq_some_iff] at h
    obtain ⟨q, hq, hlast⟩ := h
    rw [List.concat_eq_append, List.dropLast_concat]
    exact ⟨q, hq, isDirectoryAt_of_foldlM hlast hp⟩

theorem createDirectory_of_isDirectory (h : t.isDirectory path = true) :
    t.createDirectory path = (t, true) := by
  obtain ⟨p, hplace, hp⟩ := isDirectory_iff.mp h
  obtain ⟨husable, hparts⟩ := place?_eq_some_iff.mp hplace
  have hsteps : path.steps.foldlM t.step? [] = some p := (foldlM_filter_iff hp).mpr hparts
  unfold createDirectory
  rw [husable]
  split_ifs with hpoint
  · simp at hpoint
  · obtain ⟨q, hq, hdirectory⟩ := reached_dropLast hsteps hp
    rw [createFrom_of_reached hq hdirectory]
    simp only [h]
  · exact createFrom_of_reached hsteps hp

end LadderLogic.FileTree
