/-!
Rounding quotients of natural numbers to a nearest natural number.

`halfUp` and `halfEven` differ only on exact ties.
-/

namespace TwoPhase.Rounding

/-- The nearest natural number to `num / den`; a tie goes up. -/
def halfUp (num den : Nat) : Nat :=
  (2 * num + den) / (2 * den)

/-- The nearest natural number to `num / den`; a tie goes to the even neighbour. -/
def halfEven (num den : Nat) : Nat :=
  let quotient := num / den
  let twice := 2 * (num % den)
  if twice < den ∨ (twice = den ∧ quotient % 2 = 0) then quotient else quotient + 1

/-- The nearest natural number with at most `width` significant bits; a tie goes to the one whose
last significant bit is zero. -/
def toWidth (width value : Nat) : Nat :=
  let place := Nat.pow 2 (value.log2 + 1 - width)
  halfEven value place * place

theorem halfEven_one (num : Nat) : halfEven num 1 = num := by
  simp [halfEven, Nat.mod_one]

theorem toWidth_of_lt {width value : Nat} (fits : value.log2 < width) :
    toWidth width value = value := by
  have none_over : value.log2 + 1 - width = 0 := by omega
  simp [toWidth, none_over, halfEven_one]

end TwoPhase.Rounding
