/-!
Text in bytes. What is no text is found in maximal pieces, so that each can be shown as one
replacement character.
-/

set_option autoImplicit false

namespace LadderLogic.Text

def isContinuation (b : UInt8) : Bool := 0x80 ≤ b && b < 0xc0

/-- The second bytes that may follow a first byte. They exclude characters that would fit fewer
bytes, surrogates, and what lies beyond the last code point. -/
def followRange (lead : UInt8) : UInt8 × UInt8 :=
  if lead = 0xe0 then (0xa0, 0xbf)
  else if lead = 0xed then (0x80, 0x9f)
  else if lead = 0xf0 then (0x90, 0xbf)
  else if lead = 0xf4 then (0x80, 0x8f)
  else (0x80, 0xbf)

/-- How many bytes a character takes by its first byte; zero if none starts with it. -/
def widthOf (lead : UInt8) : Nat :=
  if lead < 0x80 then 1
  else if 0xc2 ≤ lead && lead < 0xe0 then 2
  else if 0xe0 ≤ lead && lead < 0xf0 then 3
  else if 0xf0 ≤ lead && lead < 0xf5 then 4
  else 0

/-- The leading bytes that continue a character, at most so many. -/
def continuations : Nat → List UInt8 → List UInt8
  | 0, _ => []
  | _, [] => []
  | n + 1, b :: bs => if isContinuation b then b :: continuations n bs else []

/-- The bytes after the first one that belong to its character, as far as they are there. -/
def following (lead : UInt8) (bs : List UInt8) : List UInt8 :=
  match bs with
  | [] => []
  | b :: rest =>
    let (low, high) := followRange lead
    if 2 ≤ widthOf lead && low ≤ b && b ≤ high then b :: continuations (widthOf lead - 2) rest
    else []

/-- The code point of a first byte and those that follow it. -/
def codePoint (lead : UInt8) (bs : List UInt8) : Nat :=
  bs.foldl (fun n b => n * 64 + b.toNat % 64)
    (match bs.length with
      | 0 => lead.toNat
      | 1 => lead.toNat % 32
      | 2 => lead.toNat % 16
      | _ => lead.toNat % 8)

/-- The characters of bytes, with `none` for every maximal piece that is no character. -/
def decode (bytes : List UInt8) : List (Option Char) :=
  match bytes with
  | [] => []
  | lead :: rest =>
    let tail := following lead rest
    let char :=
      if widthOf lead = tail.length + 1 then some (Char.ofNat (codePoint lead tail)) else none
    char :: decode (rest.drop tail.length)
termination_by bytes.length
decreasing_by rw [List.length_drop, List.length_cons]; omega

def ofBytes? (bytes : ByteArray) : Option String :=
  ((decode bytes.toList).mapM id).map String.ofList

/-- The bytes as a text in which a replacement character stands for what is none. -/
def ofBytesLossy (bytes : ByteArray) : String :=
  String.ofList ((decode bytes.toList).map fun c => c.getD '\ufffd')

end LadderLogic.Text
