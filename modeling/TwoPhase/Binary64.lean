import TwoPhase.Rounding

/-!
Binary64 numbers taken apart.

A finite number is a whole number of units, one unit being `2 ^ -1074`, the smallest positive
binary64 number.  All texts of numbers are computed from this form and read into it, in exact
arithmetic.
-/

namespace TwoPhase

/-- A binary64 number by its class; finite ones are `± mantissa * 2 ^ scale` units, with fewer than
53 bits of mantissa only at scale zero. -/
inductive Binary64 where
  | nan
  | infinite (negative : Bool)
  | finite (negative : Bool) (mantissa scale : Nat)

namespace Binary64

/-- How many units make one. -/
def unitsPerOne : Nat :=
  Nat.pow 2 1074

/-- The least mantissa of 53 bits. -/
def fullMantissa : Nat :=
  Nat.pow 2 52

/-- The magnitude of a finite number in units. -/
def units (mantissa scale : Nat) : Nat :=
  mantissa * Nat.pow 2 scale

/-- Read sign, exponent and fraction off the bits. -/
def ofBits (bits : Nat) : Binary64 :=
  let fraction := bits % fullMantissa
  let exponent := bits / fullMantissa % 2048
  let negative := bits / Nat.pow 2 63 == 1
  if exponent = 2047 then
    if fraction = 0 then .infinite negative else .nan
  else if exponent = 0 then
    .finite negative fraction 0
  else
    .finite negative (fullMantissa + fraction) (exponent - 1)

/-- The bits without the sign: the exponent field above the 52 bits of the fraction. -/
def magnitudeBits : Binary64 → Nat
  | .nan => 2047 * fullMantissa + fullMantissa / 2
  | .infinite _ => 2047 * fullMantissa
  | .finite _ mantissa scale =>
      if mantissa < fullMantissa then mantissa else scale * fullMantissa + mantissa

def isNegative : Binary64 → Bool
  | .nan => false
  | .infinite negative => negative
  | .finite negative _ _ => negative

def toBits (x : Binary64) : Nat :=
  (if x.isNegative then Nat.pow 2 63 else 0) + x.magnitudeBits

def ofFloat (x : Float) : Binary64 :=
  ofBits x.toBits.toNat

def toFloat (x : Binary64) : Float :=
  Float.ofBits x.toBits.toUInt64

def isFinite : Binary64 → Bool
  | .finite .. => true
  | _ => false

def negate : Binary64 → Binary64
  | .nan => .nan
  | .infinite negative => .infinite !negative
  | .finite negative mantissa scale => .finite (!negative) mantissa scale

/-- A mantissa of at most 53 bits after rounding.  A carry into the next bit moves to the next
scale, and there is no finite number beyond the largest one. -/
def ofRounded (mantissa scale : Nat) : Binary64 :=
  if mantissa = 2 * fullMantissa then
    if scale < 2045 then .finite false fullMantissa (scale + 1) else .infinite false
  else
    if scale ≤ 2045 then .finite false mantissa scale else .infinite false

/-- The number nearest to `num / den`; a tie goes to the even mantissa, and what rounds to more than
the largest finite number is infinite. -/
def nearest (num den : Nat) : Binary64 :=
  let scaled := num * unitsPerOne
  let scale := (scaled / den).log2 + 1 - 53
  ofRounded (Rounding.halfEven scaled (den * Nat.pow 2 scale)) scale

end Binary64

end TwoPhase
