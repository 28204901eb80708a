import LadderLogic.Decimal.Digits

/-!
Texts in TOML: basic ones with escapes and literal ones without, each on one line or over several.
-/

set_option autoImplicit false

namespace LadderLogic.Toml

/-- What may stand in comments and literal texts: no control character but the tab. -/
def isPlain (c : Char) : Bool := c == '\t' || (' ' ≤ c && c ≠ '\x7f')

def isSpace (c : Char) : Bool := c == ' ' || c == '\t'

def skipSpaces (cs : List Char) : List Char := cs.dropWhile isSpace

/-- Splits off a line feed, alone or after a carriage return. -/
def newline? : List Char → Option (List Char)
  | '\n' :: rest => some rest
  | '\r' :: '\n' :: rest => some rest
  | _ => none

/-- The character of a code point, unless it is a surrogate or none at all. -/
def scalar? (n : Nat) : Option Char := if n.isValidChar then some (Char.ofNat n) else none

def readEscape? : List Char → Option (Char × List Char)
  | 'b' :: rest => some ('\x08', rest)
  | 't' :: rest => some ('\t', rest)
  | 'n' :: rest => some ('\n', rest)
  | 'f' :: rest => some ('\x0c', rest)
  | 'r' :: rest => some ('\r', rest)
  | '"' :: rest => some ('"', rest)
  | '\\' :: rest => some ('\\', rest)
  | 'u' :: rest => unicode? 4 rest
  | 'U' :: rest => unicode? 8 rest
  | _ => none
where
  unicode? (width : Nat) (cs : List Char) : Option (Char × List Char) :=
    if cs.length < width then none
    else do
      let n ← Decimal.hexNumber? (cs.take width)
      return (← scalar? n, cs.drop width)

def readBasic? : Nat → List Char → Option (List Char × List Char)
  | 0, _ => none
  | fuel + 1, cs =>
    match cs with
    | '"' :: rest => some ([], rest)
    | '\\' :: rest => do
      let (c, rest) ← readEscape? rest
      let (tail, rest) ← readBasic? fuel rest
      return (c :: tail, rest)
    | c :: rest =>
      if isPlain c then (readBasic? fuel rest).map fun (tail, rest) => (c :: tail, rest) else none
    | [] => none

def readLiteral? (cs : List Char) : Option (List Char × List Char) :=
  match cs.dropWhile fun c => isPlain c && c ≠ '\'' with
  | '\'' :: rest => some (cs.takeWhile fun c => isPlain c && c ≠ '\'', rest)
  | _ => none

/-- The delimiters at the front of a text over several lines: `none` if there are one or two, which
belong to the text. Otherwise the text ends here, and of up to five the first two belong to it. -/
def closing? (quote : Char) (cs : List Char) : Option (List Char × List Char) :=
  let run := (cs.takeWhile (· == quote)).length
  if run < 3 then none else some (List.replicate (min run 5 - 3) quote, cs.drop (min run 5))

def skipBreaks : List Char → List Char
  | '\n' :: rest => skipBreaks rest
  | '\r' :: '\n' :: rest => skipBreaks rest
  | c :: rest => if isSpace c then skipBreaks rest else c :: rest
  | [] => []

/-- What follows a backslash at the end of a line, from the next character of the text on. -/
def continuation? (cs : List Char) : Option (List Char) :=
  (newline? (skipSpaces cs)).map skipBreaks

/-- Reads a text over several lines after its opening delimiter. -/
def readLines? (quote : Char) (escapes : Bool) : Nat → List Char → Option (List Char × List Char)
  | 0, _ => none
  | fuel + 1, cs =>
    match cs with
    | [] => none
    | c :: rest =>
      if c = quote then
        match closing? quote cs with
        | some found => some found
        | none => (readLines? quote escapes fuel rest).map fun (tail, rest) => (c :: tail, rest)
      else if c = '\\' ∧ escapes then
        match continuation? rest with
        | some rest => readLines? quote escapes fuel rest
        | none => do
          let (c, rest) ← readEscape? rest
          let (tail, rest) ← readLines? quote escapes fuel rest
          return (c :: tail, rest)
      else
        match newline? cs with
        | some rest =>
          (readLines? quote escapes fuel rest).map fun (tail, rest) => ('\n' :: tail, rest)
        | none =>
          if isPlain c then
            (readLines? quote escapes fuel rest).map fun (tail, rest) => (c :: tail, rest)
          else none

/-- Reads a text over several lines, whose first line break does not count if it comes at once. -/
def readBlock? (quote : Char) (escapes : Bool) (cs : List Char) : Option (List Char × List Char) :=
  readLines? quote escapes cs.length ((newline? cs).getD cs)

def readText? : List Char → Option (List Char × List Char)
  | '"' :: '"' :: '"' :: rest => readBlock? '"' true rest
  | '"' :: rest => readBasic? rest.length rest
  | '\'' :: '\'' :: '\'' :: rest => readBlock? '\'' false rest
  | '\'' :: rest => readLiteral? rest
  | _ => none

end LadderLogic.Toml
