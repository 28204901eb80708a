import LadderLogic.FileTree
import LadderLogic.Notice

/-!
The rotating log file. When a line would make the live file longer than a mebibyte, the live file
becomes the first archive, every archive the next one, and the oldest is dropped.
-/

set_option autoImplicit false

namespace LadderLogic

structure LogMessage where
  severity : Severity
  text : String
  deriving DecidableEq

/-- The text of a message in a log, without the line break. -/
def LogMessage.line (m : LogMessage) : String := m.severity.label ++ " " ++ m.text

def LogMessage.bytes (m : LogMessage) : ByteArray := (m.line ++ "\n").toUTF8

/-- A log file, with the size that was counted since it was opened. -/
structure LogFile where
  directory : Path
  openSize : Option Nat
  deriving DecidableEq

namespace LogFile

/-- The longest live file, unless a single line is longer. -/
def sizeLimit : Nat := 1024 * 1024

def archiveCount : Nat := 4

def fileName : String := "ladder.log"

def live (log : LogFile) : Path := log.directory.child fileName

def archive (log : LogFile) (n : Nat) : Path :=
  log.directory.child (fileName ++ "." ++ Decimal.text n)

def closed (log : LogFile) : LogFile := { log with openSize := none }

def inDirectory (directory : Path) (tree : FileTree) : Option LogFile × FileTree :=
  match tree.createDirectory directory with
  | (tree, true) => (some ⟨directory, none⟩, tree)
  | (tree, false) => (none, tree)

/-- Opens the live file if it is not open yet, and returns its size. -/
def ensureOpen? (log : LogFile) (tree : FileTree) : Option (Nat × FileTree) :=
  match log.openSize with
  | some size => some (size, tree)
  | none =>
    match tree.find? log.live with
    | some (.file content) => some (content.size, tree)
    | some .directory => none
    | none => (tree.write? log.live .empty).map fun tree => (0, tree)

/-- Makes the moves whose source is there, up to the first one that fails. -/
def moveAll : List (Path × Path) → FileTree → FileTree × Bool
  | [], tree => (tree, true)
  | (source, target) :: rest, tree =>
    if tree.has source then
      match tree.rename? source target with
      | some tree => moveAll rest tree
      | none => (tree, false)
    else moveAll rest tree

def moves (log : LogFile) : List (Path × Path) :=
  ((List.range (archiveCount - 1)).map fun n =>
    (log.archive (n + 1), log.archive (n + 2))).reverse ++ [(log.live, log.archive 1)]

/-- Drops the oldest archive and moves the others and the live file on. `false` if an operation
failed, and then those before it stay done. -/
def rotate (log : LogFile) (tree : FileTree) : FileTree × Bool :=
  if tree.has (log.archive archiveCount) then
    match tree.removeFile? (log.archive archiveCount) with
    | some tree => moveAll log.moves tree
    | none => (tree, false)
  else moveAll log.moves tree

def append (log : LogFile) (size : Nat) (bytes : ByteArray) (tree : FileTree) :
    LogFile × FileTree × Bool :=
  match tree.append? log.live bytes with
  | some tree => ({ log with openSize := some (size + bytes.size) }, tree, true)
  | none => ({ log with openSize := some size }, tree, false)

/-- Writes a message, after a rotation if the live file would get too long. `false` if it was not
written; a rotation that failed leaves the file closed. -/
def write (log : LogFile) (message : LogMessage) (tree : FileTree) : LogFile × FileTree × Bool :=
  let bytes := message.bytes
  match log.ensureOpen? tree with
  | none => (log, tree, false)
  | some (size, tree) =>
    if size + bytes.size ≤ sizeLimit then log.append size bytes tree
    else
      match log.rotate tree with
      | (tree, false) => (log.closed, tree, false)
      | (tree, true) =>
        match log.closed.ensureOpen? tree with
        | none => (log.closed, tree, false)
        | some (size, tree) => log.append size bytes tree

end LogFile

end LadderLogic
