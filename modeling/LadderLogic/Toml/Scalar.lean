import LadderLogic.Decimal.Read
import LadderLogic.Integer
import LadderLogic.Toml

/-!
Numbers and dates in TOML. Digits may be grouped with single underscores between them.
-/

set_option autoImplicit false

namespace LadderLogic.Toml

def readGrouped? (isDigit : Char → Bool) : List Char → Option (List Char × List Char)
  | '_' :: d :: rest =>
    if isDigit d then (readGrouped? isDigit rest).map fun (ds, rest) => (d :: ds, rest) else none
  | d :: rest =>
    if isDigit d then (readGrouped? isDigit rest).map fun (ds, rest) => (d :: ds, rest)
    else if d = '_' then none
    else some ([], d :: rest)
  | [] => some ([], [])

def readDigits? (isDigit : Char → Bool) : List Char → Option (List Char × List Char)
  | d :: rest =>
    if isDigit d then (readGrouped? isDigit rest).map fun (ds, rest) => (d :: ds, rest) else none
  | [] => none

/-- Reads a decimal integer without sign. A leading zero stands alone. -/
def readNatural? : List Char → Option (List Char × List Char)
  | '0' :: rest => some (['0'], rest)
  | cs => readDigits? Char.isDigit cs

/-- An integer if it fits 64 bits. -/
def bounded? (i : Int) (rest : List Char) : Option (Toml × List Char) :=
  (Integer.checked i).map fun i => (integer i, rest)

def readBase? (base : Nat) (cs : List Char) : Option (Toml × List Char) := do
  let isDigit (c : Char) : Bool := (Decimal.hexValue? c).any (· < base)
  let (ds, rest) ← readDigits? isDigit cs
  let n ← ds.foldlM (fun n c => (Decimal.hexValue? c).map (base * n + ·)) 0
  bounded? (n : Nat) rest

def readInteger? : List Char → Option (Toml × List Char)
  | '0' :: 'x' :: rest => readBase? 16 rest
  | '0' :: 'o' :: rest => readBase? 8 rest
  | '0' :: 'b' :: rest => readBase? 2 rest
  | cs => do
    let (negative, cs) := Decimal.splitSign cs
    let (ds, rest) ← readNatural? cs
    bounded? (Binary.signed negative (Decimal.value ds)) rest

def readExponent? : List Char → Option (Int × List Char)
  | c :: cs =>
    if c = 'e' ∨ c = 'E' then do
      let (negative, cs) := Decimal.splitSign cs
      let (ds, rest) ← readDigits? Char.isDigit cs
      return (Binary.signed negative (Decimal.value ds), rest)
    else none
  | [] => none

/-- Reads an exponent, or a fraction that an exponent may follow. -/
def readTail? : List Char → Option (List Char × Int × List Char)
  | '.' :: cs => do
    let (ds, rest) ← readDigits? Char.isDigit cs
    match rest with
    | c :: _ =>
      if c = 'e' ∨ c = 'E' then do
        let (e, rest) ← readExponent? rest
        return (ds, e, rest)
      else return (ds, 0, rest)
    | [] => return (ds, 0, [])
  | cs => (readExponent? cs).map fun (e, rest) => ([], e, rest)

/-- Whether a written number is nearer to infinity than to the greatest real. -/
def isTooLarge (w : Decimal.Written) : Bool :=
  match Binary.double.decode (w.toWord Binary.double) with
  | .infinite negative => !negative
  | _ => false

/-- Reads a real. One that is too large has no value, while one that is too small does. -/
def readReal? (cs : List Char) : Option (Toml × List Char) :=
  let (negative, cs) := Decimal.splitSign cs
  match cs with
  | 'i' :: 'n' :: 'f' :: rest => some (real, rest)
  | 'n' :: 'a' :: 'n' :: rest => some (real, rest)
  | cs => do
    let (whole, rest) ← readNatural? cs
    let (fraction, exponent, rest) ← readTail? rest
    if isTooLarge ⟨negative, whole, fraction, exponent⟩ then none else return (real, rest)

/-- Reads a given number of digits, with a value in a range. -/
def readField? (width low high : Nat) (cs : List Char) : Option (Nat × List Char) :=
  let ds := cs.take width
  if ds.length = width ∧ ds.all Char.isDigit then
    let n := Decimal.value ds
    if low ≤ n ∧ n ≤ high then some (n, cs.drop width) else none
  else none

def expect? (c : Char) : List Char → Option (List Char)
  | d :: rest => if d = c then some rest else none
  | [] => none

def daysOf (year month : Nat) : Nat :=
  if month = 2 then
    if year % 4 = 0 ∧ (year % 100 ≠ 0 ∨ year % 400 = 0) then 29 else 28
  else if month = 4 ∨ month = 6 ∨ month = 9 ∨ month = 11 then 30
  else 31

def skipDate? (cs : List Char) : Option (List Char) := do
  let (year, cs) ← readField? 4 0 9999 cs
  let cs ← expect? '-' cs
  let (month, cs) ← readField? 2 1 12 cs
  let cs ← expect? '-' cs
  let (_, cs) ← readField? 2 1 (daysOf year month) cs
  return cs

/-- What follows a time of day. A minute may have a leap second. -/
def skipTime? (cs : List Char) : Option (List Char) := do
  let (_, cs) ← readField? 2 0 23 cs
  let cs ← expect? ':' cs
  let (_, cs) ← readField? 2 0 59 cs
  let cs ← expect? ':' cs
  let (_, cs) ← readField? 2 0 60 cs
  match cs with
  | '.' :: d :: rest => if d.isDigit then return rest.dropWhile Char.isDigit else return cs
  | _ => return cs

def skipOffset? : List Char → Option (List Char)
  | c :: cs =>
    if c = 'Z' ∨ c = 'z' then some cs
    else if c = '+' ∨ c = '-' then do
      let (_, cs) ← readField? 2 0 23 cs
      let cs ← expect? ':' cs
      let (_, cs) ← readField? 2 0 59 cs
      return cs
    else none
  | [] => none

/-- Reads a date, a time, or both with an optional offset. -/
def readDateTime? (cs : List Char) : Option (Toml × List Char) :=
  match skipDate? cs with
  | none => (skipTime? cs).map fun rest => (dateTime, rest)
  | some rest =>
    match rest with
    | c :: after =>
      match (if c = 'T' ∨ c = 't' ∨ c = ' ' then skipTime? after else none) with
      | some after => some (dateTime, (skipOffset? after).getD after)
      | none => some (dateTime, rest)
    | [] => some (dateTime, [])

def readNumber? (cs : List Char) : Option (Toml × List Char) :=
  (readDateTime? cs).or ((readReal? cs).or (readInteger? cs))

end LadderLogic.Toml
