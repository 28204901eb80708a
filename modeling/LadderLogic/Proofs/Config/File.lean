import LadderLogic.Config.File
import LadderLogic.Proofs.Config.Text
import LadderLogic.Proofs.FileTree.Files
import LadderLogic.Proofs.Text.Utf8

/-!
Configurations in files. A repaired configuration is not repaired again, and what is written for it
is read as it is, so a file that has been loaded once stays as it is. Main result: whatever text
the file holds, loading it settles on one configuration within its bounds, and a text that is no
configuration is kept.
-/

set_option autoImplicit false

namespace LadderLogic

namespace Limits

/-- Limits that scans can use. -/
structure InRange (l : Limits) : Prop where
  loops : 1 ≤ l.maxLoopIterations.toNat ∧ l.maxLoopIterations.toNat ≤ 1000000
  depth : 1 ≤ l.maxCallDepth.toNat ∧ l.maxCallDepth.toNat ≤ 1024

theorem accepts_iff {n bound : UInt32} :
    (1 ≤ n && n ≤ bound) = true ↔ 1 ≤ n.toNat ∧ n.toNat ≤ bound.toNat := by
  simp only [Bool.and_eq_true, decide_eq_true_eq, UInt32.le_iff_toNat_le]
  rfl

theorem inRange_iff {l : Limits} : l.InRange ↔
    acceptsLoop l.maxLoopIterations = true ∧ acceptsDepth l.maxCallDepth = true := by
  constructor
  · intro h
    exact ⟨accepts_iff.mpr h.loops, accepts_iff.mpr h.depth⟩
  · intro h
    exact ⟨accepts_iff.mp h.1, accepts_iff.mp h.2⟩

theorem inRange_defaults : defaults.InRange := inRange_iff.mpr (by decide)

theorem inRange_repaired (l : Limits) : l.repaired.InRange := by
  have hdefaults := inRange_iff.mp inRange_defaults
  rw [inRange_iff]
  unfold repaired
  constructor
  · dsimp only
    split_ifs with hloop
    · exact hloop
    · exact hdefaults.1
  · dsimp only
    split_ifs with hdepth
    · exact hdepth
    · exact hdefaults.2

/-- What is in range needs no repair. -/
theorem repaired_of_inRange {l : Limits} (h : l.InRange) : l.repaired = l := by
  obtain ⟨hloop, hdepth⟩ := inRange_iff.mp h
  simp [repaired, hloop, hdepth]

end Limits

namespace EngineConfig

theorem repaired_of_inRange {c : EngineConfig} (h : c.limits.InRange) : c.repaired = c := by
  unfold repaired
  rw [Limits.repaired_of_inRange h]

theorem inRange_repaired (c : EngineConfig) : c.repaired.limits.InRange :=
  c.limits.inRange_repaired

end EngineConfig

/-- A failure of the file system, and not of the text. -/
def ConfigFailure.IsIo (e : ConfigFailure) : Prop := e ≠ .malformed

def ConfigLoad.NoIoFailure (r : ConfigLoad) : Prop := ∀ e, r.result = .error e → ¬ e.IsIo

namespace Path

theorem trimEnd_concat {above : List String} {name : String} (hidle : isIdle name = false) :
    trimEnd (above ++ [name]) = above ++ [name] := by
  simp [trimEnd, hidle]

/-- No name is its own stem with two extensions more. -/
theorem stem?_ne {name stem : String} (h : stem? name = some stem) :
    stem ++ "." ++ "toml.backup" ≠ name := by
  rintro rfl
  have hstem : stem? (stem ++ "." ++ "toml.backup") = some (stem ++ ".toml") := by
    simp [stem?]
  have hlength := congrArg String.length (Option.some.inj (hstem.symm.trans h))
  rw [String.length_append, Nat.add_eq_left] at hlength
  exact absurd hlength (by decide)

theorem isName_of_length {name : String} (h : 2 < name.length) :
    isIdle name = false ∧ isUp name = false := by
  have hne : ∀ s : String, s.length ≤ 2 → name ≠ s := by
    rintro s hs rfl
    omega
  simp [isIdle, isUp, hne "" (by decide), hne "." (by decide), hne ".." (by decide)]

end Path

namespace ConfigFile

variable {path : Path} {tree u : FileTree} {c : EngineConfig} {text : String}

/-- Where a text is kept is another place than where it was. -/
theorem apart_backup {backup : Path} {content : ByteArray} (hbackup : backupPath? path = some backup)
    (hread : tree.read? path = some content) : tree.Apart backup path := by
  obtain ⟨p, hplace, hnode⟩ := FileTree.read?_eq_some_iff.mp hread
  have hfile : tree.isDirectoryAt p = false := by
    rw [FileTree.isDirectoryAt_eq_false_iff, hnode]
    simp
  obtain ⟨above, name, hparts, hidle⟩ := FileTree.exists_last_of_file hplace hfile
  have hlast : (Path.trimEnd path.parts).getLast? = some name := by
    rw [hparts, Path.trimEnd_concat hidle, List.getLast?_concat]
  unfold backupPath? Path.withExtension? at hbackup
  rw [hlast] at hbackup
  simp only [Option.bind_some, Option.map_eq_some_iff] at hbackup
  obtain ⟨stem, hstem, rfl⟩ := hbackup
  have hup : Path.isUp name = false := by
    by_contra hup
    obtain rfl : name = ".." := by simpa [Path.isUp] using hup
    cases hstem
  have hkept : 2 < (stem ++ "." ++ "toml.backup").length := by
    have hend : "toml.backup".length = 11 := by decide
    rw [String.length_append, hend]
    omega
  obtain ⟨hkeptIdle, hkeptUp⟩ := Path.isName_of_length hkept
  rintro b q hb hq rfl
  rw [Path.child_eq] at hb
  have hbackupName := FileTree.getLast?_of_place? hkeptIdle hkeptUp hb
  have hq : tree.place? ⟨above ++ [name]⟩ = some b := by rwa [← hparts]
  have hname := FileTree.getLast?_of_place? hidle hup hq
  exact Path.stem?_ne hstem (Option.some.inj (hbackupName.symm.trans hname))

theorem read?_of_save (h : save path c tree = (.ok (), u)) :
    u.read? path = some c.write.toUTF8 := by
  unfold save at h
  split at h
  next => cases h
  next created hcreate =>
    split at h
    next => cases h
    next written hwrite =>
      obtain rfl := congrArg Prod.snd h
      exact FileTree.read?_of_write? hwrite

/-- Saving a configuration leaves the files at other places alone. -/
theorem read?_save_of_apart (h : save path c tree = (.ok (), u)) {other : Path} {content : ByteArray}
    (hapart : ∀ v, FileTree.Grows tree v → v.Apart path other)
    (hread : tree.read? other = some content) : u.read? other = some content := by
  unfold save at h
  split at h
  next => cases h
  next created hcreate =>
    have hgrows : FileTree.Grows tree created := by
      have hgrows := FileTree.grows_createDirectory tree path.parent
      rwa [hcreate] at hgrows
    split at h
    next => cases h
    next written hwrite =>
      obtain rfl := congrArg Prod.snd h
      exact FileTree.read?_write?_of_apart hwrite (hapart _ hgrows) (hgrows.read? hread)

theorem readText?_of_read? (h : tree.read? path = some text.toUTF8) :
    readText? path tree = some text := by
  unfold readText?
  rw [h, Option.bind_some, Text.ofBytes?_toUTF8]

section
variable (hread : tree.read? path = some text.toUTF8)
include hread

theorem load_config (hc : EngineConfig.read? text = some c) :
    load path tree = ⟨.ok c.repaired, tree, c.repairs⟩ := by
  simp only [load, readText?_of_read? hread, hc]

theorem loadOrCreate_config (hc : EngineConfig.read? text = some c) :
    loadOrCreate path tree =
      if Text.trim text.toList = Text.trim c.repaired.write.toList then
        ⟨.ok c.repaired, tree, c.repairs⟩
      else saveResult path c.repaired c.repairs tree := by
  simp only [loadOrCreate, FileTree.has_of_read? hread, if_true, loadAndNormalize,
    readText?_of_read? hread, hc]

theorem loadOrCreate_malformed (hmalformed : EngineConfig.read? text = none) :
    loadOrCreate path tree = replace path text tree := by
  simp only [loadOrCreate, FileTree.has_of_read? hread, if_true, loadAndNormalize,
    readText?_of_read? hread, hmalformed]

end

theorem loadOrCreate_absent (habsent : tree.has path = false) :
    loadOrCreate path tree = saveResult path .defaults [] tree := by
  simp [loadOrCreate, habsent]

/-- The file holds a text that is the configuration after repair, and that is as it would be written.
So loading takes the branch in which nothing is saved. -/
structure Unsaved (path : Path) (c : EngineConfig) (tree : FileTree) (text : String) : Prop where
  read : tree.read? path = some text.toUTF8
  config : (EngineConfig.read? text).map EngineConfig.repaired = some c
  trim : Text.trim text.toList = Text.trim c.write.toList

/-- The configuration that loading gives, now and again, without a change to the tree, and without
saving the file as it was. -/
structure Settled (path : Path) (c : EngineConfig) (tree : FileTree) : Prop where
  load : (load path tree).result = .ok c ∧ (load path tree).tree = tree
  loadOrCreate : (loadOrCreate path tree).result = .ok c ∧ (loadOrCreate path tree).tree = tree
  unsaved : ∃ text, Unsaved path c tree text

/-- A text that is as it would be written is left as it is. -/
theorem settled_of_unsaved (h : Unsaved path c tree text) : Settled path c tree := by
  obtain ⟨stored, hstored, rfl⟩ := Option.map_eq_some_iff.mp h.config
  constructor
  case load =>
    rw [load_config h.read hstored]
    exact ⟨rfl, rfl⟩
  case loadOrCreate =>
    rw [loadOrCreate_config h.read hstored, if_pos h.trim]
    exact ⟨rfl, rfl⟩
  case unsaved => exact ⟨text, h⟩

/-- A file with a repaired configuration, as it is written, is left as it is. -/
theorem settled_of_read? (hread : tree.read? path = some c.write.toUTF8)
    (hrange : c.limits.InRange) : Settled path c tree := by
  refine settled_of_unsaved ⟨hread, ?_, rfl⟩
  rw [c.read?_write, Option.map_some, EngineConfig.repaired_of_inRange hrange]

theorem isIo_of_save {e : ConfigFailure} (h : save path c tree = (.error e, u)) : e.IsIo := by
  unfold save at h
  split at h
  next =>
    obtain rfl : .noDirectory = e := Except.error.inj (congrArg Prod.fst h)
    exact nofun
  next =>
    split at h
    next =>
      obtain rfl : .unwritable = e := Except.error.inj (congrArg Prod.fst h)
      exact nofun
    next => cases h

/-- Without a failure of the file system, the configuration has been saved. -/
theorem exists_save_of_saveResult {notices : List Notice}
    (hio : (saveResult path c notices tree).NoIoFailure) :
    ∃ u, save path c tree = (.ok (), u) ∧
      saveResult path c notices tree = ⟨.ok c, u, notices⟩ := by
  rcases hsave : save path c tree with ⟨e | _, u⟩
  · have hfails : (saveResult path c notices tree).result = .error e := by
      simp [saveResult, hsave]
    exact absurd (isIo_of_save hsave) (hio e hfails)
  · exact ⟨u, rfl, by simp [saveResult, hsave]⟩

theorem backUp?_eq_some_iff {backup : Path} : backUp? path text tree = some (backup, u) ↔
    backupPath? path = some backup ∧ tree.write? backup text.toUTF8 = some u := by
  simp [backUp?, Option.bind_eq_some_iff]

theorem replace_of_backUp? {backup : Path} (hkept : backUp? path text tree = some (backup, u)) :
    replace path text tree = saveResult path .defaults [.configReplaced backup.text] u := by
  simp [replace, hkept]

theorem exists_backUp?_of_replace (hio : (replace path text tree).NoIoFailure) :
    ∃ backup u, backUp? path text tree = some (backup, u) := by
  rcases hkept : backUp? path text tree with _ | ⟨backup, u⟩
  · have hfails : (replace path text tree).result = .error .noBackup := by
      simp [replace, hkept]
    exact absurd nofun (hio _ hfails)
  · exact ⟨backup, u, rfl⟩

/-- What loading leads to: a configuration in range on which the file has settled. -/
structure Settles (path : Path) (r : ConfigLoad) (c : EngineConfig) : Prop where
  result : r.result = .ok c
  inRange : c.limits.InRange
  settled : Settled path c r.tree

theorem settles_of_saveResult {notices : List Notice} (hrange : c.limits.InRange)
    (hio : (saveResult path c notices tree).NoIoFailure) :
    Settles path (saveResult path c notices tree) c := by
  obtain ⟨u, hsave, hresult⟩ := exists_save_of_saveResult hio
  rw [hresult]
  exact ⟨rfl, hrange, settled_of_read? (read?_of_save hsave) hrange⟩

/-- What the configuration file holds: a text, or nothing if it is not there. -/
def Holds (path : Path) (tree : FileTree) : Option String → Prop
  | none => tree.has path = false
  | some text => tree.read? path = some text.toUTF8

/-- The configuration that the file stands for: the one it holds, repaired, or the defaults. -/
def intended (content : Option String) : EngineConfig :=
  ((content.bind EngineConfig.read?).map EngineConfig.repaired).getD .defaults

/-- Whatever the file holds, it settles on the configuration that it stands for. -/
theorem settles_of_holds {content : Option String} (hcontent : Holds path tree content)
    (hio : (loadOrCreate path tree).NoIoFailure) :
    Settles path (loadOrCreate path tree) (intended content) := by
  cases content with
  | none =>
    rw [loadOrCreate_absent hcontent] at hio ⊢
    exact settles_of_saveResult Limits.inRange_defaults hio
  | some text =>
    cases hc : EngineConfig.read? text with
    | none =>
      have hdefaults : intended (some text) = .defaults := by simp [intended, hc]
      rw [hdefaults]
      rw [loadOrCreate_malformed hcontent hc] at hio ⊢
      obtain ⟨backup, before, hkept⟩ := exists_backUp?_of_replace hio
      rw [replace_of_backUp? hkept] at hio ⊢
      exact settles_of_saveResult Limits.inRange_defaults hio
    | some c =>
      have hrepaired : intended (some text) = c.repaired := by simp [intended, hc]
      have hrange := c.inRange_repaired
      rw [hrepaired]
      rw [loadOrCreate_config hcontent hc] at hio ⊢
      split_ifs at hio ⊢ with htrim
      · exact ⟨rfl, hrange, settled_of_unsaved ⟨hcontent, by rw [hc]; rfl, htrim⟩⟩
      · exact settles_of_saveResult hrange hio

/-- A text that is no configuration is kept beside the file, which holds the defaults then. -/
theorem kept_of_malformed (hread : tree.read? path = some text.toUTF8)
    (hmalformed : EngineConfig.read? text = none)
    (hio : (loadOrCreate path tree).NoIoFailure) :
    (loadOrCreate path tree).tree.read? path = some EngineConfig.defaults.write.toUTF8 ∧
      ∃ backup, backupPath? path = some backup ∧
        (loadOrCreate path tree).tree.read? backup = some text.toUTF8 := by
  rw [loadOrCreate_malformed hread hmalformed] at hio ⊢
  obtain ⟨backup, before, hkept⟩ := exists_backUp?_of_replace hio
  obtain ⟨hbackup, hwrite⟩ := backUp?_eq_some_iff.mp hkept
  rw [replace_of_backUp? hkept] at hio ⊢
  obtain ⟨u, hsave, hresult⟩ := exists_save_of_saveResult hio
  have hbefore := FileTree.read?_write?_of_apart hwrite (apart_backup hbackup hread) hread
  rw [hresult]
  refine ⟨read?_of_save hsave, backup, hbackup, ?_⟩
  apply read?_save_of_apart hsave
  · intro v hgrows
    exact (apart_backup hbackup (hgrows.read? hbefore)).symm
  · exact FileTree.read?_of_write? hwrite

/-- Where a configuration can be kept: its directory is there, and neither its file nor the one for
a text that is no configuration is a directory. -/
structure Site (path : Path) (tree : FileTree) : Prop where
  parent : tree.isDirectory path.parent = true
  file : ∃ p, tree.place? path = some p ∧ tree.isDirectoryAt p = false
  backup : ∃ backup b, backupPath? path = some backup ∧ tree.place? backup = some b ∧
    tree.isDirectoryAt b = false

namespace Site

theorem result_saveResult (h : Site path tree) (c : EngineConfig) (notices : List Notice) :
    (saveResult path c notices tree).result = .ok c := by
  obtain ⟨p, hplace, hfile⟩ := h.file
  have hwrite := FileTree.write?_of_place hplace hfile c.write.toUTF8
  have hcreate := FileTree.createDirectory_of_isDirectory h.parent
  simp only [saveResult, save, hcreate, hwrite]

/-- Keeping a text does not take the place away. -/
theorem exists_backUp? (h : Site path tree) (text : String) :
    ∃ backup u, backUp? path text tree = some (backup, u) ∧ Site path u := by
  obtain ⟨backup, b, hbackup, hb, hfile⟩ := h.backup
  have hwrite := FileTree.write?_of_place hb hfile text.toUTF8
  refine ⟨backup, _, backUp?_eq_some_iff.mpr ⟨hbackup, hwrite⟩, ?_, ?_, backup, b, hbackup, ?_⟩
  · obtain ⟨d, hd, hdirectory⟩ := FileTree.isDirectory_iff.mp h.parent
    apply FileTree.isDirectory_iff.mpr
    exact ⟨d, by rw [FileTree.place?_insert_file hfile, hd],
      by rw [FileTree.isDirectoryAt_insert_file hfile, hdirectory]⟩
  · simp only [FileTree.place?_insert_file hfile, FileTree.isDirectoryAt_insert_file hfile]
    exact h.file
  · simp only [FileTree.place?_insert_file hfile, FileTree.isDirectoryAt_insert_file hfile]
    exact ⟨hb, hfile⟩

/-- In such a place the file system does not fail. -/
theorem exists_loadOrCreate (h : Site path tree) {content : Option String}
    (hcontent : Holds path tree content) : ∃ c, (loadOrCreate path tree).result = .ok c := by
  cases content with
  | none =>
    rw [loadOrCreate_absent hcontent]
    exact ⟨_, h.result_saveResult _ _⟩
  | some text =>
    cases hc : EngineConfig.read? text with
    | none =>
      obtain ⟨backup, u, hkept, hsite⟩ := h.exists_backUp? text
      rw [loadOrCreate_malformed hcontent hc, replace_of_backUp? hkept]
      exact ⟨_, hsite.result_saveResult _ _⟩
    | some c =>
      rw [loadOrCreate_config hcontent hc]
      split_ifs
      · exact ⟨_, rfl⟩
      · exact ⟨_, h.result_saveResult _ _⟩

end Site

/-- Unless the file system fails, and it does not where a configuration can be kept, loading gives
the configuration that the file stands for, in range. It is given again without a save. A text that
is no configuration is kept byte for byte, and the file holds the defaults. -/
theorem loadOrCreate_settles {content : Option String} (hcontent : Holds path tree content) :
    (Site path tree → ∃ c, (loadOrCreate path tree).result = .ok c) ∧
    ((loadOrCreate path tree).NoIoFailure →
      Settles path (loadOrCreate path tree) (intended content) ∧
      ∀ text, content = some text → EngineConfig.read? text = none →
        (loadOrCreate path tree).tree.read? path = some EngineConfig.defaults.write.toUTF8 ∧
        ∃ backup, backupPath? path = some backup ∧
          (loadOrCreate path tree).tree.read? backup = some text.toUTF8) := by
  refine ⟨fun hsite => hsite.exists_loadOrCreate hcontent, fun hio => ?_⟩
  refine ⟨settles_of_holds hcontent hio, ?_⟩
  rintro text rfl hmalformed
  exact kept_of_malformed hcontent hmalformed hio

/-- A tree whose only file is no configuration. -/
def damagedTree : FileTree := (∅ : FileTree).insert ["engine.toml"] (.file "limits = [[[".toUTF8)

theorem place?_engine (tree : FileTree) :
    tree.place? ⟨["engine.toml"]⟩ = some ["engine.toml"] ∧
      tree.place? ⟨["engine.toml.backup"]⟩ = some ["engine.toml.backup"] := by
  constructor
  all_goals
    apply FileTree.place?_singleton
    · constructor <;> decide
    · simp [Path.isUsable, String.contains_char_eq]
      decide

theorem holds_damagedTree : Holds ⟨["engine.toml"]⟩ damagedTree (some "limits = [[[") := by
  apply FileTree.read?_eq_some_iff.mpr
  refine ⟨["engine.toml"], (place?_engine _).1, ?_⟩
  unfold damagedTree
  rw [FileTree.node?_insert (by simp), if_pos rfl]

theorem site_damagedTree : Site ⟨["engine.toml"]⟩ damagedTree where
  parent := by
    have hparent : (Path.mk ["engine.toml"]).parent = ⟨[]⟩ := by decide
    rw [hparent]
    apply FileTree.isDirectory_iff.mpr
    exact ⟨[], by simp [FileTree.place?, Path.isUsable], rfl⟩
  file := by
    refine ⟨_, (place?_engine _).1, ?_⟩
    unfold damagedTree
    rw [FileTree.isDirectoryAt_eq_false_iff, FileTree.node?_insert (by simp), if_pos rfl]
    simp
  backup := by
    refine ⟨⟨["engine.toml.backup"]⟩, _, by decide +kernel, (place?_engine _).2, ?_⟩
    unfold damagedTree
    rw [FileTree.isDirectoryAt_eq_false_iff, FileTree.node?_insert (by simp), if_neg (by decide)]
    simp [FileTree.node?]

theorem loadOrCreate_settles_sample :
    Settles ⟨["engine.toml"]⟩ (loadOrCreate ⟨["engine.toml"]⟩ damagedTree) .defaults ∧
    (loadOrCreate ⟨["engine.toml"]⟩ damagedTree).tree.read? ⟨["engine.toml.backup"]⟩ =
      some "limits = [[[".toUTF8 := by
  have hmalformed : EngineConfig.read? "limits = [[[" = none := by decide +kernel
  have hbackup : backupPath? ⟨["engine.toml"]⟩ = some ⟨["engine.toml.backup"]⟩ := by decide +kernel
  obtain ⟨hloads, hsettles⟩ := loadOrCreate_settles holds_damagedTree
  obtain ⟨c, hresult⟩ := hloads site_damagedTree
  have hio : (loadOrCreate ⟨["engine.toml"]⟩ damagedTree).NoIoFailure := by
    intro e herror
    rw [hresult] at herror
    cases herror
  obtain ⟨hsettled, hkept⟩ := hsettles hio
  obtain ⟨-, backup, hbackup', hread⟩ := hkept _ rfl hmalformed
  obtain rfl := Option.some.inj (hbackup.symm.trans hbackup')
  have hdefaults : intended (some "limits = [[[") = .defaults := by simp [intended, hmalformed]
  exact ⟨hdefaults ▸ hsettled, hread⟩

end ConfigFile

end LadderLogic
