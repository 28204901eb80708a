/-!
Paths as they are written: parts with slashes between them. Where a path leads depends on the tree
of files.
-/

set_option autoImplicit false

namespace LadderLogic

/-- The parts of a path. Empty parts and single points lead nowhere, double points lead up, and all
other parts are names. -/
structure Path where
  parts : List String
  deriving DecidableEq

namespace Path

def isIdle (part : String) : Bool := part == "" || part == "."

def isUp (part : String) : Bool := part == ".."

/-- The parts up to the last one that leads somewhere. -/
def trimEnd (parts : List String) : List String := (parts.reverse.dropWhile isIdle).reverse

def ofText (s : String) : Path := ⟨s.splitOn "/"⟩

/-- The text of parts without what leads nowhere at both ends. -/
def text (p : Path) : String := "/".intercalate (trimEnd (p.parts.dropWhile isIdle))

/-- The longest path, in bytes. -/
def sizeLimit : Nat := 4095

def isUsable (p : Path) : Bool :=
  let written := "/".intercalate p.parts
  written.utf8ByteSize ≤ sizeLimit && !written.contains '\x00'

def parent (p : Path) : Path := ⟨trimEnd (trimEnd p.parts).dropLast⟩

/-- The path with a name below it. A slash at the end of the path is not doubled. -/
def child (p : Path) (name : String) : Path :=
  match p.parts.reverse with
  | "" :: above => ⟨above.reverse ++ [name]⟩
  | _ => ⟨p.parts ++ [name]⟩

/-- Whether the last part, apart from slashes at the end, is a single point. -/
def endsInPoint (p : Path) : Bool := (p.parts.reverse.dropWhile (· == "")).head? == some "."

def steps (p : Path) : List String := p.parts.filter fun part => !isIdle part

/-- A name without its extension, which starts at the last point. A point at the front starts none,
and a name of which only a point would be left has no other extension. -/
def stem? (name : String) : Option String :=
  match (name.toList.reverse.dropWhile (· ≠ '.')).drop 1 with
  | [] => some name
  | ['.'] => none
  | before => some (String.ofList before.reverse)

def withExtension? (p : Path) (extension : String) : Option Path :=
  (trimEnd p.parts).getLast?.bind fun name =>
    (stem? name).map fun stem => p.parent.child (stem ++ "." ++ extension)

end Path

end LadderLogic
