import TwoPhase.Decimal.Shortest

/-!
Texts of binary64 numbers.

`plain` writes the shortest digits that read back, always without an exponent.  `signed` puts a sign
in front of every number, however it is written.  `scientific` writes one digit, a point, eight
digits and the exponent.
-/

namespace TwoPhase.Decimal

def zeros (count : Nat) : String :=
  String.ofList (List.replicate count '0')

def signText (negative : Bool) : String :=
  if negative then "-" else ""

/-- `digits * 10 ^ exponent` written out in full. -/
def positional (decimal : Decimal) : String :=
  let digits := decimal.digits.repr
  if 0 ≤ decimal.exponent then
    digits ++ zeros decimal.exponent.toNat
  else
    let places := (-decimal.exponent).toNat
    if places < digits.length then
      let characters := digits.toList
      String.ofList (characters.take (digits.length - places)) ++ "." ++
        String.ofList (characters.drop (digits.length - places))
    else
      "0." ++ zeros (places - digits.length) ++ digits

/-- The shortest digits that read back, without an exponent and without a point on whole numbers. -/
def plain (x : Float) : String :=
  match Binary64.ofFloat x with
  | .nan => "NaN"
  | .infinite negative => signText negative ++ "inf"
  | .finite negative 0 _ => signText negative ++ "0"
  | .finite negative mantissa scale => signText negative ++ positional (shortest mantissa scale)

/-- A number as `write` writes it, with a plus sign in front of what has no minus sign, except where
there is no number. -/
def signed (write : Float → String) (x : Float) : String :=
  match Binary64.ofFloat x with
  | .nan | .infinite true | .finite true _ _ => write x
  | _ => "+" ++ write x

/-- A positive number of units as a digit, a point, eight digits and an exponent.  The last digit is
rounded to nearest, ties to even. -/
def scientificUnits (units : Nat) : String :=
  let exponent := magnitude units
  let (num, den) := onGrid units (exponent - 9)
  let rounded := Rounding.halfEven num den
  let (digits, exponent) :=
    if rounded = 1000000000 then (100000000, exponent + 1) else (rounded, exponent)
  let characters := digits.repr.toList
  String.ofList (characters.take 1) ++ "." ++ String.ofList (characters.drop 1) ++ "E" ++
    (exponent - 1).repr

def scientific (x : Float) : String :=
  match Binary64.ofFloat x with
  | .nan => "NaN"
  | .infinite negative => signText negative ++ "inf"
  | .finite negative 0 _ => signText negative ++ "0.00000000E0"
  | .finite negative mantissa scale =>
      signText negative ++ scientificUnits (Binary64.units mantissa scale)

end TwoPhase.Decimal
