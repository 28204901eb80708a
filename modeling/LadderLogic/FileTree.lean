import LadderLogic.Path
import Std.Data.ExtTreeMap

/-!
Trees of files, for what configuration and logs keep there. Paths are followed part by part through
directories that exist. An operation that fails leaves the tree as it was, except that some of the
directories on the way to a new one may have been created.
-/

set_option autoImplicit false

namespace LadderLogic

/-- The names on the way from the root. -/
abbrev Place := List String

def Place.text (p : Place) : String := "/".intercalate p

inductive FileNode where
  | file (content : ByteArray)
  | directory

/-- What lies at each place. The root is a directory and not listed. -/
abbrev FileTree := Std.ExtTreeMap Place FileNode

namespace FileTree

/-- The longest name, in bytes. -/
def nameLimit : Nat := 255

def node? (t : FileTree) (p : Place) : Option FileNode :=
  if p = [] then some .directory else t[p]?

def isDirectoryAt (t : FileTree) (p : Place) : Bool :=
  match t.node? p with
  | some .directory => true
  | _ => false

/-- Where a part of a path leads from a directory. Above the root lies the root. -/
def step? (t : FileTree) (p : Place) (part : String) : Option Place :=
  if !t.isDirectoryAt p then none
  else if Path.isIdle part then some p
  else if Path.isUp part then some p.dropLast
  else if part.utf8ByteSize ≤ nameLimit then some (p ++ [part])
  else none

/-- Where a path leads. Something may be created there if there is nothing yet. -/
def place? (t : FileTree) (p : Path) : Option Place :=
  if p.isUsable then p.parts.foldlM t.step? [] else none

def find? (t : FileTree) (p : Path) : Option FileNode := (t.place? p).bind t.node?

def has (t : FileTree) (p : Path) : Bool := (t.find? p).isSome

def isDirectory (t : FileTree) (p : Path) : Bool := (t.place? p).any t.isDirectoryAt

def read? (t : FileTree) (p : Path) : Option ByteArray :=
  match t.find? p with
  | some (.file content) => some content
  | _ => none

def write? (t : FileTree) (p : Path) (content : ByteArray) : Option FileTree := do
  let place ← t.place? p
  if t.isDirectoryAt place then none else some (t.insert place (.file content))

def append? (t : FileTree) (p : Path) (content : ByteArray) : Option FileTree := do
  let place ← t.place? p
  match t.node? place with
  | some (.file old) => some (t.insert place (.file (old ++ content)))
  | _ => none

/-- Creates the missing directories on the way from one directory on, up to a part that leads
nowhere else. `false` if there is such a part. -/
def createFrom (t : FileTree) (start : Place) : List String → FileTree × Bool
  | [] => (t, true)
  | part :: parts =>
    match t.step? start part with
    | none => (t, false)
    | some place =>
      match t.node? place with
      | some (.file _) => (t, false)
      | some .directory => t.createFrom place parts
      | none => createFrom (t.insert place .directory) place parts

/-- Creates a directory and those above it; `false` if it is not there in the end. A directory that
is written with a point after it is not created itself. -/
def createDirectory (t : FileTree) (p : Path) : FileTree × Bool :=
  if !p.isUsable then (t, false)
  else if p.endsInPoint then
    let (t, _) := t.createFrom [] p.steps.dropLast
    (t, t.isDirectory p)
  else t.createFrom [] p.steps

def removeFile? (t : FileTree) (p : Path) : Option FileTree := do
  let place ← t.place? p
  match t.node? place with
  | some (.file _) => some (t.erase place)
  | _ => none

def isEmptyDirectory (t : FileTree) (p : Place) : Bool :=
  t.isDirectoryAt p && t.keys.all fun q => q == p || !p.isPrefixOf q

/-- The place of what a directory holds, after the directory has moved. -/
def movedPlace (p q r : Place) : Place := if p.isPrefixOf r then q ++ r.drop p.length else r

/-- Moves a file, also over another one, or a directory with all that it holds, also over an empty
one. -/
def rename? (t : FileTree) (source target : Path) : Option FileTree := do
  let p ← t.place? source
  let q ← t.place? target
  match t.node? p with
  | none => none
  | some (.file content) =>
    if t.isDirectoryAt q then none else some ((t.erase p).insert q (.file content))
  | some .directory =>
    if p.isPrefixOf q || ((t.node? q).isSome && !t.isEmptyDirectory q) then none
    else some (.ofList (t.toList.map fun (r, node) => (movedPlace p q r, node)))

def files (t : FileTree) : List (Place × ByteArray) :=
  t.toList.filterMap fun
    | (p, .file content) => some (p, content)
    | (_, .directory) => none

end FileTree

end LadderLogic
