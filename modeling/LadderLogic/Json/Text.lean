import LadderLogic.Decimal.Digits

/-!
Texts in JSON: between double quotes, with escapes. An escape gives a character, or a 16-bit unit
that needs its partner if it is a surrogate.
-/

set_option autoImplicit false

namespace LadderLogic.Json

/-- What one character or one escape of a quoted text stands for. -/
inductive Piece where
  | char (c : Char)
  | unit (n : Nat)
  deriving DecidableEq

namespace Piece

def isLead (n : Nat) : Bool := 0xd800 ≤ n && n < 0xdc00

def isTrail (n : Nat) : Bool := 0xdc00 ≤ n && n < 0xe000

def paired (lead trail : Nat) : Char :=
  Char.ofNat (0x10000 + (lead - 0xd800) * 0x400 + (trail - 0xdc00))

/-- The characters of pieces; `none` if a surrogate lacks its partner. -/
def join? : List Piece → Option (List Char)
  | [] => some []
  | char c :: ps => (join? ps).map (c :: ·)
  | unit m :: unit n :: ps =>
    if isLead m then if isTrail n then (join? ps).map (paired m n :: ·) else none
    else if isTrail m then none
    else (join? (unit n :: ps)).map (Char.ofNat m :: ·)
  | unit m :: ps => if isLead m || isTrail m then none else (join? ps).map (Char.ofNat m :: ·)

end Piece

def unescape? : Char → Option Char
  | '"' => some '"'
  | '\\' => some '\\'
  | '/' => some '/'
  | 'b' => some '\x08'
  | 'f' => some '\x0c'
  | 'n' => some '\n'
  | 'r' => some '\r'
  | 't' => some '\t'
  | _ => none

/-- Reads a text after its opening quote, and returns what follows the closing one. -/
def readPieces? : List Char → Option (List Piece × List Char)
  | '"' :: rest => some ([], rest)
  | '\\' :: 'u' :: a :: b :: c :: d :: rest => do
    let n ← Decimal.hexNumber? [a, b, c, d]
    let (ps, tail) ← readPieces? rest
    return (.unit n :: ps, tail)
  | '\\' :: c :: rest => do
    let c ← unescape? c
    let (ps, tail) ← readPieces? rest
    return (.char c :: ps, tail)
  | c :: rest =>
    if c = '\\' ∨ c < ' ' then none
    else (readPieces? rest).map fun (ps, tail) => (.char c :: ps, tail)
  | [] => none

/-- A character in a quoted text. Quotes, backslashes and control characters are escaped. -/
def escapedChar (c : Char) : List Char :=
  if c = '"' then ['\\', '"']
  else if c = '\\' then ['\\', '\\']
  else if c = '\x08' then ['\\', 'b']
  else if c = '\x0c' then ['\\', 'f']
  else if c = '\n' then ['\\', 'n']
  else if c = '\r' then ['\\', 'r']
  else if c = '\t' then ['\\', 't']
  else if c < ' ' then '\\' :: 'u' :: Decimal.padLeft 4 (Nat.toDigits 16 c.toNat)
  else [c]

def quoted (cs : List Char) : List Char := '"' :: (cs.flatMap escapedChar ++ ['"'])

end LadderLogic.Json
