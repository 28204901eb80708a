import LadderLogic.Binary.Format

/-!
The exact operations on reals that evaluation and the cells need: integer part, floor, remainder
and the passage to single precision. Each is defined on the datum of the word.
-/

set_option autoImplicit false

namespace LadderLogic.Binary

def datum (x : Float) : Datum := double.decode x.toBits.toNat

def ofWord (word : Nat) : Float := Float.ofBits (UInt64.ofNat word)

def ofDatum (d : Datum) : Float := ofWord (double.encodeDatum d)

def ofInt (i : Int) : Float := ofWord (double.encode (decide (i < 0)) i.natAbs 1)

/-- The magnitude of a finite datum without its fraction. -/
def wholePart (mantissa : Nat) : Int → Nat
  | .ofNat n => mantissa <<< n
  | .negSucc n => mantissa >>> (n + 1)

def hasFraction (mantissa : Nat) : Int → Bool
  | .ofNat _ => false
  | .negSucc n => mantissa % (1 <<< (n + 1)) != 0

def signed (negative : Bool) (magnitude : Nat) : Int :=
  if negative then -(magnitude : Int) else magnitude

/-- The integer part, toward zero; `none` unless the real is finite. -/
def truncate? (x : Float) : Option Int :=
  match datum x with
  | .finite negative mantissa exponent => some (signed negative (wholePart mantissa exponent))
  | _ => none

/-- The largest integer not above the real; `none` unless the real is finite. -/
def floorInt? (x : Float) : Option Int :=
  match datum x with
  | .finite negative mantissa exponent =>
    let whole := signed negative (wholePart mantissa exponent)
    some (if negative && hasFraction mantissa exponent then whole - 1 else whole)
  | _ => none

/-- The floor as a real. A zero keeps its sign, and what is not finite stays as it is. -/
def floor (x : Float) : Float :=
  match floorInt? x with
  | some i => if i = 0 ∧ x.toBits.toNat = double.signBit then x else ofInt i
  | none => x

/-- The remainder of the truncated quotient, exact, with the sign of the dividend. -/
def remainder (x y : Float) : Float :=
  match datum x, datum y with
  | .finite negative m e, .finite _ n k =>
    if n = 0 then ofDatum .nan
    else
      let low := min e k
      let rest := (m <<< (e - low).toNat) % (n <<< (k - low).toNat)
      ofDatum (.finite negative rest low)
  | .finite .., .infinite _ => x
  | _, _ => ofDatum .nan

def singleWord (x : Float) : Nat := single.encodeDatum (datum x)

def ofSingleWord (word : Nat) : Float := ofDatum (single.decode word)

def toSingle (x : Float) : Float := ofSingleWord (singleWord x)

def singleMax : Float := ofSingleWord (single.infinity - 1)

end LadderLogic.Binary
