import LadderLogic.Proofs.FileTree.Directories

/-!
Files in a tree. A file that is written is read back, keeps the directories as they are, and leaves
the files at other places alone. The place of a file ends with the name that its path ends with.
-/

set_option autoImplicit false

namespace LadderLogic.FileTree

variable {t u : FileTree} {p q : Place} {path other : Path} {content : ByteArray}

theorem read?_eq_some_iff :
    t.read? path = some content ↔
      ∃ p, t.place? path = some p ∧ t.node? p = some (.file content) := by
  unfold read? find?
  constructor
  · intro h
    split at h
    next found hfound =>
      obtain rfl := Option.some.inj h
      exact Option.bind_eq_some_iff.mp hfound
    next => cases h
  · rintro ⟨p, hplace, hnode⟩
    rw [hplace, Option.bind_some, hnode]

theorem has_of_read? (h : t.read? path = some content) : t.has path = true := by
  obtain ⟨p, hplace, hnode⟩ := read?_eq_some_iff.mp h
  simp [has, find?, hplace, hnode]

theorem Grows.read? (h : Grows t u) (hread : t.read? path = some content) :
    u.read? path = some content := by
  obtain ⟨p, hplace, hnode⟩ := read?_eq_some_iff.mp hread
  exact read?_eq_some_iff.mpr ⟨p, h.place? hplace, h p _ hnode⟩

theorem write?_eq_some_iff :
    t.write? path content = some u ↔
      ∃ p, t.place? path = some p ∧ t.isDirectoryAt p = false ∧ t.insert p (.file content) = u := by
  unfold write?
  simp only [Option.bind_eq_bind, Option.bind_eq_some_iff]
  constructor
  · rintro ⟨p, hplace, h⟩
    split_ifs at h with hdirectory
    exact ⟨p, hplace, by simpa using hdirectory, Option.some.inj h⟩
  · rintro ⟨p, hplace, hdirectory, rfl⟩
    exact ⟨p, hplace, by simp [hdirectory]⟩

/-- What a path leads to can be written unless it is a directory. -/
theorem write?_of_place (hplace : t.place? path = some p) (hfile : t.isDirectoryAt p = false)
    (content : ByteArray) : t.write? path content = some (t.insert p (.file content)) :=
  write?_eq_some_iff.mpr ⟨p, hplace, hfile, rfl⟩

section
variable (hfile : t.isDirectoryAt p = false)
include hfile

theorem isDirectoryAt_insert_file (content : ByteArray) (q : Place) :
    isDirectoryAt (t.insert p (.file content)) q = t.isDirectoryAt q := by
  have hp := ne_nil_of_isDirectoryAt_eq_false hfile
  by_cases hq : q = p
  · subst hq
    rw [hfile, isDirectoryAt_eq_false_iff, node?_insert hp]
    simp
  · apply isDirectoryAt_congr
    rw [node?_insert hp, if_neg hq]

theorem place?_insert_file (content : ByteArray) (path : Path) :
    place? (t.insert p (.file content)) path = t.place? path :=
  place?_congr (isDirectoryAt_insert_file hfile content) path

end

theorem read?_of_write? (h : t.write? path content = some u) : u.read? path = some content := by
  obtain ⟨p, hplace, hfile, rfl⟩ := write?_eq_some_iff.mp h
  apply read?_eq_some_iff.mpr
  refine ⟨p, ?_, ?_⟩
  · rw [place?_insert_file hfile, hplace]
  · rw [node?_insert (ne_nil_of_isDirectoryAt_eq_false hfile), if_pos rfl]

/-- Paths that lead to different places. -/
def Apart (t : FileTree) (path other : Path) : Prop :=
  ∀ p q, t.place? path = some p → t.place? other = some q → p ≠ q

theorem Apart.symm (h : t.Apart path other) : t.Apart other path :=
  fun p q hp hq => (h q p hq hp).symm

theorem read?_write?_of_apart (h : t.write? path content = some u) (hapart : t.Apart path other)
    {kept : ByteArray} (hread : t.read? other = some kept) : u.read? other = some kept := by
  obtain ⟨p, hplace, hfile, rfl⟩ := write?_eq_some_iff.mp h
  obtain ⟨q, hother, hnode⟩ := read?_eq_some_iff.mp hread
  apply read?_eq_some_iff.mpr
  refine ⟨q, ?_, ?_⟩
  · rw [place?_insert_file hfile, hother]
  · rw [node?_insert (ne_nil_of_isDirectoryAt_eq_false hfile),
      if_neg (hapart p q hplace hother).symm, hnode]

theorem step?_eq_some {part : String} (h : t.step? p part = some q)
    (hidle : Path.isIdle part = false) (hup : Path.isUp part = false) : q = p ++ [part] := by
  unfold step? at h
  split_ifs at h <;> simp_all

/-- A path whose last part is a name leads to that name below some place. -/
theorem getLast?_of_place? {above : List String} {name : String} (hidle : Path.isIdle name = false)
    (hup : Path.isUp name = false) (h : t.place? ⟨above ++ [name]⟩ = some p) :
    p.getLast? = some name := by
  have hparts := (place?_eq_some_iff.mp h).2
  rw [List.foldlM_append] at hparts
  simp only [Option.bind_eq_bind, Option.bind_eq_some_iff, List.foldlM_cons, List.foldlM_nil,
    Option.pure_def, Option.some.injEq] at hparts
  obtain ⟨q, -, r, hstep, rfl⟩ := hparts
  obtain rfl := step?_eq_some hstep hidle hup
  exact List.getLast?_concat

/-- The path of a file ends with a part that leads somewhere. -/
theorem exists_last_of_file (hplace : t.place? path = some p) (hfile : t.isDirectoryAt p = false) :
    ∃ above name, path.parts = above ++ [name] ∧ Path.isIdle name = false := by
  have hparts := (place?_eq_some_iff.mp hplace).2
  rcases path.parts.eq_nil_or_concat with hnil | ⟨above, name, hconcat⟩
  · rw [hnil] at hparts
    obtain rfl : [] = p := by simpa using hparts
    simp at hfile
  · rw [List.concat_eq_append] at hconcat
    refine ⟨above, name, hconcat, ?_⟩
    by_contra hname
    have hidle : Path.isIdle name = true := by simpa using hname
    rw [hconcat, List.foldlM_append] at hparts
    simp only [Option.bind_eq_bind, Option.bind_eq_some_iff, List.foldlM_cons, List.foldlM_nil,
      Option.pure_def, Option.some.injEq] at hparts
    obtain ⟨q, -, r, hstep, rfl⟩ := hparts
    have hq := isDirectoryAt_of_step? hstep
    have hstay : t.step? q name = some q := by simp [step?, hq, hidle]
    obtain rfl : q = r := Option.some.inj (hstay.symm.trans hstep)
    rw [hq] at hfile
    cases hfile

end LadderLogic.FileTree
