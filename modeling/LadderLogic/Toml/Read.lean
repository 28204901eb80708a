import LadderLogic.Toml.Scalar
import LadderLogic.Toml.Text

/-!
Reading TOML documents.
-/

set_option autoImplicit false

namespace LadderLogic.Toml

/-- Arrays and braced tables nest less deep than this, and keys have fewer parts. -/
def depthLimit : Nat := 80

def isBare (c : Char) : Bool := c.isAlphanum || c == '-' || c == '_'

def readPart? : List Char → Option (String × List Char)
  | '"' :: rest => (readBasic? rest.length rest).map fun (k, rest) => (String.ofList k, rest)
  | '\'' :: rest => (readLiteral? rest).map fun (k, rest) => (String.ofList k, rest)
  | cs =>
    let k := cs.takeWhile isBare
    if k = [] then none else some (String.ofList k, cs.dropWhile isBare)

/-- Reads parts with points between them, up to what is neither. -/
def readParts? : Nat → List Char → Option (List String × List Char)
  | 0, _ => none
  | fuel + 1, cs => do
    let (part, rest) ← readPart? (skipSpaces cs)
    match skipSpaces rest with
    | '.' :: rest => do
      let (parts, rest) ← readParts? fuel rest
      return (part :: parts, rest)
    | rest => return ([part], rest)

def readKey? (cs : List Char) : Option (List String × String × List Char) := do
  let (parts, rest) ← readParts? (depthLimit - 1) cs
  return (parts.dropLast, ← parts.getLast?, rest)

/-- What follows spaces, comments and line breaks; `true` while inside a comment. -/
def skipLines? : Bool → List Char → Option (List Char)
  | _, '\n' :: rest => skipLines? false rest
  | _, '\r' :: '\n' :: rest => skipLines? false rest
  | true, c :: rest => if isPlain c then skipLines? true rest else none
  | false, c :: rest =>
    if isSpace c then skipLines? false rest
    else if c = '#' then skipLines? true rest
    else some (c :: rest)
  | _, [] => some []

/-- Reads the items of an array after its opening bracket. A comma may follow the last one. -/
def readItems? (readItem : List Char → Option (Toml × List Char)) :
    Nat → List Char → Option (List Toml × List Char)
  | 0, _ => none
  | fuel + 1, cs => do
    match ← skipLines? false cs with
    | ']' :: rest => return ([], rest)
    | cs => do
      let (item, rest) ← readItem cs
      match ← skipLines? false rest with
      | ',' :: rest => do
        let (items, rest) ← readItems? readItem fuel rest
        return (item :: items, rest)
      | ']' :: rest => return ([item], rest)
      | _ => none

def readPair? (readItem : List Char → Option (Toml × List Char)) (cs : List Char) :
    Option ((List String × String × Toml) × List Char) := do
  let (path, key, rest) ← readKey? cs
  let rest ← expect? '=' rest
  let (value, rest) ← readItem (skipSpaces rest)
  return ((path, key, value), rest)

/-- Adds the pairs of a braced table, which is on one line, after its opening brace or a comma. -/
def readPairs? (readItem : List Char → Option (Toml × List Char)) (entries : Entries) :
    Nat → List Char → Option (Entries × List Char)
  | 0, _ => none
  | fuel + 1, cs => do
    let ((path, key, value), rest) ← readPair? readItem cs
    let entries ← insert entries path key value
    match skipSpaces rest with
    | ',' :: rest => readPairs? readItem entries fuel rest
    | '\x7d' :: rest => return (entries, rest)
    | _ => none

/-- Reads a value in which arrays and braced tables nest at most so deep. -/
def readValue? : Nat → List Char → Option (Toml × List Char)
  | levels, cs =>
    match cs with
    | 't' :: 'r' :: 'u' :: 'e' :: rest => some (boolean true, rest)
    | 'f' :: 'a' :: 'l' :: 's' :: 'e' :: rest => some (boolean false, rest)
    | '[' :: rest =>
      match levels with
      | 0 => none
      | levels + 1 =>
        (readItems? (readValue? levels) cs.length rest).map fun (items, rest) => (array items, rest)
    | '\x7b' :: rest =>
      match levels with
      | 0 => none
      | levels + 1 =>
        match skipSpaces rest with
        | '\x7d' :: rest => some (table .braced [], rest)
        | rest =>
          (readPairs? (readValue? levels) [] cs.length rest).map fun (entries, rest) =>
            (table .braced entries, rest)
    | cs =>
      match readText? cs with
      | some (t, rest) => some (text (String.ofList t), rest)
      | none => readNumber? cs

/-- What follows the end of a line, after spaces and a comment. -/
def endLine? (cs : List Char) : Option (List Char) :=
  let cs :=
    match skipSpaces cs with
    | '#' :: rest => rest.dropWhile isPlain
    | cs => cs
  match cs with
  | [] => some []
  | cs => newline? cs

def readLine? : List Char → Option (Line × List Char)
  | '[' :: '[' :: cs => do
    let (path, key, rest) ← readKey? cs
    let rest ← expect? ']' (← expect? ']' rest)
    return (.nextHeader path key, rest)
  | '[' :: cs => do
    let (path, key, rest) ← readKey? cs
    return (.header path key, ← expect? ']' rest)
  | cs => do
    let ((path, key, value), rest) ← readPair? (readValue? (depthLimit - 1)) cs
    return (.pair path key value, rest)

def readDocumentLines? : Nat → List Char → Option (List Line)
  | 0, _ => none
  | fuel + 1, cs =>
    let cs := skipSpaces cs
    if cs = [] then some []
    else match endLine? cs with
      | some rest => readDocumentLines? fuel rest
      | none => do
        let (line, rest) ← readLine? cs
        let rest ← endLine? rest
        return line :: (← readDocumentLines? fuel rest)

/-- Reads a document, whose text may start with a byte order mark. -/
def read? (s : String) : Option Entries := do
  let cs :=
    match s.toList with
    | '\ufeff' :: cs => cs
    | cs => cs
  addLines [] [] (← readDocumentLines? (cs.length + 1) cs)

end LadderLogic.Toml
