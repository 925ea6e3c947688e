import TwoPhase.Binary64

/-!
Reading numerals: counts and decimal numbers.

A count is an unsigned 64-bit number.  A number is an optional sign followed by decimal digits with
an optional point and an optional exponent, or by one of the words for infinity and for no number.
-/

namespace TwoPhase.Decimal

def digitsValue (digits : List Char) : Nat :=
  digits.foldl (fun value digit => 10 * value + (digit.toNat - '0'.toNat)) 0

/-- Split off a sign; `true` is minus. -/
def splitSign : List Char → Bool × List Char
  | '-' :: rest => (true, rest)
  | '+' :: rest => (false, rest)
  | rest => (false, rest)

/-- A non-empty run of digits, after an optional plus sign, that fits in 64 bits. -/
def readCount (text : List Char) : Option UInt64 :=
  let digits := match text with
    | '+' :: rest => rest
    | rest => rest
  if digits ≠ [] ∧ digits.all Char.isDigit then
    let value := digitsValue digits
    if value < Nat.pow 2 64 then some value.toUInt64 else none
  else
    none

/-- What follows the mantissa: nothing, or an exponent with at least one digit. -/
def readExponent : List Char → Option Int
  | [] => some 0
  | mark :: rest =>
      if mark = 'e' ∨ mark = 'E' then
        let (negative, digits) := splitSign rest
        if digits ≠ [] ∧ digits.all Char.isDigit then
          let value : Int := digitsValue digits
          some (if negative then -value else value)
        else
          none
      else
        none

/-- The number nearest to `digits * 10 ^ exponent`.  Beyond `10 ^ 400` all is infinite and far below
the unit all is zero, so no huge power is ever computed. -/
def nearest (digits : Nat) (exponent : Int) : Binary64 :=
  if digits = 0 then .finite false 0 0
  else if 400 < exponent then .infinite false
  else if exponent < -(400 + (digits.log2 : Int)) then .finite false 0 0
  else Binary64.nearest (digits * Nat.pow 10 exponent.toNat) (Nat.pow 10 (-exponent).toNat)

/-- An unsigned decimal: digits with at most one point among or beside them, then an exponent. -/
def readMagnitude (text : List Char) : Option Binary64 :=
  let whole := text.takeWhile Char.isDigit
  let afterWhole := text.dropWhile Char.isDigit
  let (fraction, afterFraction) := match afterWhole with
    | '.' :: rest => (rest.takeWhile Char.isDigit, rest.dropWhile Char.isDigit)
    | rest => ([], rest)
  let digits := whole ++ fraction
  if digits = [] then
    none
  else
    (readExponent afterFraction).map fun exponent =>
      nearest (digitsValue digits) (exponent - fraction.length)

/-- Words for values that are no decimals, in any case. -/
def readWord (text : List Char) : Option Binary64 :=
  let lower := text.map Char.toLower
  if lower = "inf".toList ∨ lower = "infinity".toList then some (.infinite false)
  else if lower = "nan".toList then some .nan
  else none

def readNumber (text : List Char) : Option Binary64 :=
  let (negative, rest) := splitSign text
  let magnitude := (readWord rest).or (readMagnitude rest)
  magnitude.map fun value => if negative then value.negate else value

end TwoPhase.Decimal
