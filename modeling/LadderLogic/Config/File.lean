import LadderLogic.Config.Text
import LadderLogic.FileTree
import LadderLogic.Text.Blank
import LadderLogic.Text.Utf8

/-!
The file of a configuration. Loading it can bring it into the form that writing gives it; a file
that is no configuration is kept beside it and replaced by the defaults.
-/

set_option autoImplicit false

namespace LadderLogic

inductive ConfigFailure where
  | unreadable
  | malformed
  | noDirectory
  | unwritable
  | noBackup
  deriving DecidableEq, Repr

def ConfigFailure.message : ConfigFailure → String
  | unreadable => "Failed to read config file"
  | malformed => "Failed to parse config file"
  | noDirectory => "Failed to create config directory"
  | unwritable => "Failed to write config file"
  | noBackup => "Failed to write backup"

structure ConfigLoad where
  result : Except ConfigFailure EngineConfig
  tree : FileTree
  notices : List Notice

namespace ConfigFile

/-- Where a configuration lies below the directory for configurations, which is created. -/
def standard (directory : Path) (tree : FileTree) : Except ConfigFailure (Path × FileTree) :=
  let home := directory.child "ladder"
  match tree.createDirectory home with
  | (tree, true) => .ok (home.child "engine.toml", tree)
  | (_, false) => .error .noDirectory

/-- Writes a configuration, with the directories above it. -/
def save (path : Path) (config : EngineConfig) (tree : FileTree) :
    Except ConfigFailure Unit × FileTree :=
  match tree.createDirectory path.parent with
  | (tree, false) => (.error .noDirectory, tree)
  | (tree, true) =>
    match tree.write? path config.write.toUTF8 with
    | none => (.error .unwritable, tree)
    | some tree => (.ok (), tree)

def saveResult (path : Path) (config : EngineConfig) (notices : List Notice) (tree : FileTree) :
    ConfigLoad :=
  match save path config tree with
  | (.ok (), tree) => ⟨.ok config, tree, notices⟩
  | (.error e, tree) => ⟨.error e, tree, notices⟩

def readText? (path : Path) (tree : FileTree) : Option String :=
  (tree.read? path).bind Text.ofBytes?

/-- Reads and repairs a configuration; the file stays as it is. -/
def load (path : Path) (tree : FileTree) : ConfigLoad :=
  match readText? path tree with
  | none => ⟨.error .unreadable, tree, []⟩
  | some text =>
    match EngineConfig.read? text with
    | none => ⟨.error .malformed, tree, []⟩
    | some config => ⟨.ok config.repaired, tree, config.repairs⟩

/-- Where the text of a file that is no configuration is kept. -/
def backupPath? (path : Path) : Option Path := path.withExtension? "toml.backup"

/-- Keeps the text, and returns where. -/
def backUp? (path : Path) (text : String) (tree : FileTree) : Option (Path × FileTree) := do
  let backup ← backupPath? path
  let tree ← tree.write? backup text.toUTF8
  return (backup, tree)

/-- Keeps the text and puts the defaults in its place. -/
def replace (path : Path) (text : String) (tree : FileTree) : ConfigLoad :=
  match backUp? path text tree with
  | none => ⟨.error .noBackup, tree, []⟩
  | some (backup, tree) => saveResult path .defaults [.configReplaced backup.text] tree

/-- Reads and repairs a configuration, and writes it if the text differs in more than blanks around
it. -/
def loadAndNormalize (path : Path) (tree : FileTree) : ConfigLoad :=
  match readText? path tree with
  | none => ⟨.error .unreadable, tree, []⟩
  | some text =>
    match EngineConfig.read? text with
    | none => replace path text tree
    | some config =>
      let repaired := config.repaired
      if Text.trim text.toList = Text.trim repaired.write.toList then
        ⟨.ok repaired, tree, config.repairs⟩
      else saveResult path repaired config.repairs tree

/-- Loads the configuration, or creates one with the defaults where there is none. -/
def loadOrCreate (path : Path) (tree : FileTree) : ConfigLoad :=
  if tree.has path then loadAndNormalize path tree else saveResult path .defaults [] tree

end ConfigFile

end LadderLogic
