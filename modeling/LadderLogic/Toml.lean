/-!
TOML documents as trees, and the rules by which the lines of a document define tables: every key is
defined once, a header names a table once, and dotted keys add only to tables that dotted keys
defined.
-/

set_option autoImplicit false

namespace LadderLogic

inductive TableKind where
  /-- By a header of its own. -/
  | header
  /-- As a parent of a table with a header. -/
  | parent
  /-- By dotted keys. -/
  | dotted
  /-- Between braces. -/
  | braced
  deriving DecidableEq, Repr

/-- A value. Reals and dates keep no content, since no setting takes one. -/
inductive Toml where
  | text (s : String)
  | integer (i : Int)
  | real
  | boolean (b : Bool)
  | dateTime
  | array (items : List Toml)
  | table (kind : TableKind) (entries : List (String × Toml))
  /-- An array of tables, each with a header of its own. -/
  | tables (items : List (List (String × Toml)))

namespace Toml

abbrev Entries := List (String × Toml)

def put (entries : Entries) (key : String) (value : Toml) : Entries :=
  match entries with
  | [] => [(key, value)]
  | (k, v) :: rest => if k = key then (k, value) :: rest else (k, v) :: put rest key value

def changeLast (change : Entries → Option Entries) : List Entries → Option (List Entries)
  | [] => none
  | [t] => (change t).map ([·])
  | t :: ts => (changeLast change ts).map (t :: ·)

/-- Defines a key below a path of dotted keys. Tables on the way are entered unless they have
headers of their own, and the key itself must be new in a table of dotted keys. -/
def insert (entries : Entries) (path : List String) (key : String) (value : Toml) :
    Option Entries :=
  match path with
  | [] => if (entries.lookup key).isSome then none else some (put entries key value)
  | p :: ps =>
    match entries.lookup p with
    | none => (insert [] ps key value).map fun inner => put entries p (table .dotted inner)
    | some (table .dotted inner) =>
      (insert inner ps key value).map fun inner => put entries p (table .dotted inner)
    | some (table .parent inner) =>
      if ps = [] then none
      else (insert inner ps key value).map fun inner => put entries p (table .parent inner)
    | some (tables items) =>
      if ps = [] then none
      else (changeLast (fun inner => insert inner ps key value) items).map fun items =>
        put entries p (tables items)
    | some _ => none

/-- Changes the entries at the end of a path of headers. Missing tables on the way are made as
parents; of an array of tables the last one is entered. -/
def descend (entries : Entries) (path : List String) (change : Entries → Option Entries) :
    Option Entries :=
  match path with
  | [] => change entries
  | p :: ps =>
    match entries.lookup p with
    | none => (descend [] ps change).map fun inner => put entries p (table .parent inner)
    | some (table .braced _) => none
    | some (table kind inner) =>
      (descend inner ps change).map fun inner => put entries p (table kind inner)
    | some (tables items) =>
      (changeLast (fun inner => descend inner ps change) items).map fun items =>
        put entries p (tables items)
    | some _ => none

/-- Opens the table of a header. It must be new, or known only as a parent. -/
def openTable (key : String) (entries : Entries) : Option Entries :=
  match entries.lookup key with
  | none => some (put entries key (table .header []))
  | some (table .parent inner) => some (put entries key (table .header inner))
  | some _ => none

def openNext (key : String) (entries : Entries) : Option Entries :=
  match entries.lookup key with
  | none => some (put entries key (tables [[]]))
  | some (tables items) => some (put entries key (tables (items ++ [[]])))
  | some _ => none

/-- A line of a document, with its path split before the last key. -/
inductive Line where
  | header (path : List String) (key : String)
  | nextHeader (path : List String) (key : String)
  | pair (path : List String) (key : String) (value : Toml)

/-- Adds a line to a document. `current` is the path of the last header. -/
def addLine (document : Entries) (current : List String) : Line → Option (Entries × List String)
  | .header path key =>
    (descend document path (openTable key)).map fun d => (d, path ++ [key])
  | .nextHeader path key =>
    (descend document path (openNext key)).map fun d => (d, path ++ [key])
  | .pair path key value =>
    (descend document current fun entries => insert entries path key value).map fun d =>
      (d, current)

def addLines (document : Entries) (current : List String) : List Line → Option Entries
  | [] => some document
  | line :: lines =>
    match addLine document current line with
    | some (document, current) => addLines document current lines
    | none => none

end Toml

end LadderLogic
