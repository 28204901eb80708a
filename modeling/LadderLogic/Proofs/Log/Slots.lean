import LadderLogic.Log.File
import LadderLogic.Proofs.FileTree.Directories
import LadderLogic.Proofs.Text.Numerals

/-!
The files of a log by age. A tree is described by what the live file and the archives hold, and
every operation on a log file changes that description and nothing else in the tree.
-/

set_option autoImplicit false

namespace LadderLogic

/-- The text of a path is that of its last part after something that does not depend on it. -/
theorem Path.exists_intercalate_eq (above : List String) :
    ∃ front : String, ∀ name, "/".intercalate (above ++ [name]) = front ++ name := by
  induction above with
  | nil =>
    refine ⟨"", fun name => ?_⟩
    simp
  | cons part above ih =>
    obtain ⟨front, hfront⟩ := ih
    refine ⟨part ++ "/" ++ front, fun name => ?_⟩
    rw [String.append_assoc, ← hfront name]
    cases above with
    | nil => exact String.intercalate_cons_cons
    | cons next above => exact String.intercalate_cons_cons

namespace LogFile

def archiveName (n : Nat) : String := fileName ++ "." ++ Decimal.text n

/-- The names of the log files by age: the live file and then the archives. -/
def slotName : Nat → String
  | 0 => fileName
  | n + 1 => archiveName (n + 1)

def path (log : LogFile) (k : Nat) : Path := log.directory.child (slotName k)

theorem path_zero (log : LogFile) : log.path 0 = log.live := rfl

theorem archiveName_injective {m n : Nat} (h : archiveName m = archiveName n) : m = n := by
  have htext : Decimal.text (m : Int) = Decimal.text (n : Int) := by
    have hlist := congrArg String.toList h
    simp only [archiveName, String.toList_append, List.append_cancel_left_eq] at hlist
    exact String.toList_injective hlist
  exact_mod_cast Decimal.text_injective htext

theorem fileName_ne_archiveName (n : Nat) : fileName ≠ archiveName n := by
  intro h
  have hlength := congrArg String.length h
  simp only [archiveName, String.length_append] at hlength
  have hpoint : ".".length = 1 := rfl
  omega

theorem slotName_injective {j k : Nat} (h : slotName j = slotName k) : j = k := by
  cases j with
  | zero =>
    cases k with
    | zero => rfl
    | succ k => exact absurd h (fileName_ne_archiveName _)
  | succ j =>
    cases k with
    | zero => exact absurd h.symm (fileName_ne_archiveName _)
    | succ k => exact archiveName_injective h

theorem isPlain_slotName {k : Nat} (hk : k ≤ archiveCount) : FileTree.IsPlain (slotName k) := by
  have hk : k ≤ 4 := hk
  constructor <;> interval_cases k <;> decide

/-- All log files can be used if one archive can: the names of archives are equally long. -/
theorem isUsable_path {log : LogFile} {j k : Nat} (hj : 1 ≤ j) (hj' : j ≤ archiveCount)
    (h : (log.path j).isUsable = true) (hk : k ≤ archiveCount) : (log.path k).isUsable = true := by
  have hj' : j ≤ 4 := hj'
  have hk : k ≤ 4 := hk
  obtain ⟨front, hfront⟩ := Path.exists_intercalate_eq log.directory.stemParts
  simp only [path, Path.child_eq, Path.isUsable, hfront, String.utf8ByteSize_append,
    String.contains_char_eq, String.toList_append, List.mem_append, Bool.and_eq_true,
    decide_eq_true_eq, Bool.not_eq_true', decide_eq_false_iff_not, not_or] at h ⊢
  have hsize : (slotName k).utf8ByteSize ≤ (slotName j).utf8ByteSize := by
    interval_cases j <;> interval_cases k <;> decide
  have hplain : '\x00' ∉ (slotName k).toList := by
    interval_cases k <;> decide
  exact ⟨by omega, h.2.1, hplain⟩

/-- A directory where a log can be kept: none of the log files is a directory. -/
structure Site (base : FileTree) (directory : Path) (d : Place) : Prop where
  place : base.place? directory = some d
  isDirectory : base.isDirectoryAt d = true
  free : ∀ k ≤ archiveCount, base.isDirectoryAt (d ++ [slotName k]) = false

/-- The log files hold these contents, and everything else is as in the base. -/
structure Shows (base : FileTree) (d : Place) (slots : Nat → Option ByteArray) (t : FileTree) :
    Prop where
  own : ∀ k ≤ archiveCount, t.node? (d ++ [slotName k]) = (slots k).map FileNode.file
  other : ∀ q, (∀ k ≤ archiveCount, q ≠ d ++ [slotName k]) → t.node? q = base.node? q

variable {base t : FileTree} {d : Place} {slots slots' : Nat → Option ByteArray} {log : LogFile}
  {k : Nat}

theorem slot_inj {j : Nat} : d ++ [slotName j] = d ++ [slotName k] ↔ j = k := by
  constructor
  · intro h
    exact slotName_injective (by simpa using h)
  · rintro rfl
    rfl

namespace Shows

theorem congr (h : Shows base d slots t) (hslots : ∀ k ≤ archiveCount, slots k = slots' k) :
    Shows base d slots' t where
  own k hk := hslots k hk ▸ h.own k hk
  other := h.other

theorem insert (h : Shows base d slots t) (k : Nat) (hk : k ≤ archiveCount) (c : ByteArray) :
    Shows base d (Function.update slots k (some c)) (t.insert (d ++ [slotName k]) (.file c)) where
  own j hj := by
    rw [FileTree.node?_insert (by simp)]
    by_cases hjk : j = k
    · subst hjk
      simp
    · rw [if_neg (mt slot_inj.mp hjk), Function.update_of_ne hjk, h.own j hj]
  other q hq := by
    rw [FileTree.node?_insert (by simp), if_neg (hq k hk), h.other q hq]

theorem erase (h : Shows base d slots t) (k : Nat) (hk : k ≤ archiveCount) :
    Shows base d (Function.update slots k none) (t.erase (d ++ [slotName k])) where
  own j hj := by
    rw [FileTree.node?_erase (by simp)]
    by_cases hjk : j = k
    · subst hjk
      simp
    · rw [if_neg (mt slot_inj.mp hjk), Function.update_of_ne hjk, h.own j hj]
  other q hq := by
    rw [FileTree.node?_erase (by simp), if_neg (hq k hk), h.other q hq]

variable (hsite : Site base log.directory d) (h : Shows base d slots t)

include hsite h

/-- Log files come and go, directories stay. -/
theorem isDirectoryAt_eq (p : Place) : t.isDirectoryAt p = base.isDirectoryAt p := by
  by_cases hp : ∃ k ≤ archiveCount, p = d ++ [slotName k]
  · obtain ⟨k, hk, rfl⟩ := hp
    rw [hsite.free k hk, FileTree.isDirectoryAt_eq_false_iff, h.own k hk]
    cases slots k <;> simp
  · apply FileTree.isDirectoryAt_congr
    apply h.other
    intro k hk heq
    exact hp ⟨k, hk, heq⟩

theorem place?_path (hk : k ≤ archiveCount) :
    t.place? (log.path k) = if (log.path k).isUsable then some (d ++ [slotName k]) else none := by
  have hdirectories := h.isDirectoryAt_eq hsite
  apply FileTree.place?_child
  · rw [FileTree.place?_congr hdirectories, hsite.place]
  · rw [hdirectories, hsite.isDirectory]
  · exact isPlain_slotName hk

theorem find?_path (hk : k ≤ archiveCount) (husable : (log.path k).isUsable = true) :
    t.find? (log.path k) = (slots k).map FileNode.file := by
  unfold FileTree.find?
  rw [h.place?_path hsite hk, if_pos husable]
  exact h.own k hk

theorem has_path (hk : k ≤ archiveCount) (husable : (log.path k).isUsable = true) :
    t.has (log.path k) = (slots k).isSome := by
  unfold FileTree.has
  rw [h.find?_path hsite hk husable, Option.isSome_map]

theorem isDirectoryAt_slot (hk : k ≤ archiveCount) :
    t.isDirectoryAt (d ++ [slotName k]) = false := by
  rw [h.isDirectoryAt_eq hsite, hsite.free k hk]

theorem exists_write? (hk : k ≤ archiveCount) (husable : (log.path k).isUsable = true)
    (c : ByteArray) :
    ∃ u, t.write? (log.path k) c = some u ∧ Shows base d (Function.update slots k (some c)) u := by
  refine ⟨_, ?_, h.insert k hk c⟩
  unfold FileTree.write?
  simp [h.place?_path hsite hk, husable, h.isDirectoryAt_slot hsite hk]

theorem exists_append? (hk : k ≤ archiveCount) (husable : (log.path k).isUsable = true)
    {old : ByteArray} (hold : slots k = some old) (c : ByteArray) :
    ∃ u, t.append? (log.path k) c = some u ∧
      Shows base d (Function.update slots k (some (old ++ c))) u := by
  refine ⟨_, ?_, h.insert k hk (old ++ c)⟩
  unfold FileTree.append?
  simp [h.place?_path hsite hk, husable, h.own k hk, hold]

theorem exists_removeFile? (hk : k ≤ archiveCount) (husable : (log.path k).isUsable = true)
    {old : ByteArray} (hold : slots k = some old) :
    ∃ u, t.removeFile? (log.path k) = some u ∧ Shows base d (Function.update slots k none) u := by
  refine ⟨_, ?_, h.erase k hk⟩
  unfold FileTree.removeFile?
  simp [h.place?_path hsite hk, husable, h.own k hk, hold]

theorem exists_rename? {j : Nat} (hj : j ≤ archiveCount) (hk : k ≤ archiveCount)
    (hsource : (log.path j).isUsable = true) (htarget : (log.path k).isUsable = true)
    {c : ByteArray} (hc : slots j = some c) :
    ∃ u, t.rename? (log.path j) (log.path k) = some u ∧
      Shows base d (Function.update (Function.update slots j none) k (some c)) u := by
  refine ⟨_, ?_, (h.erase j hj).insert k hk c⟩
  unfold FileTree.rename?
  simp [h.place?_path hsite hj, h.place?_path hsite hk, hsource, htarget, h.own j hj, hc,
    h.isDirectoryAt_slot hsite hk]

end Shows

end LogFile

end LadderLogic
