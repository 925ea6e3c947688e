import TwoPhase.Decimal.Layout
import TwoPhase.Decimal.Numeral
import TwoPhase.Proofs.Binary64.Closest

/-!
# Reading written numbers

The digits of a natural number read back as that number.  A sign, digits, a point and more digits
read as the nearest binary64 number to the decimal they stand for, which is finite unless the
decimal lies beyond all finite numbers.
-/

namespace TwoPhase

namespace Decimal

theorem digitsValue_append (first last : List Char) :
    digitsValue (first ++ last) = digitsValue first * 10 ^ last.length + digitsValue last := by
  change Nat.ofDigitChars 10 (first ++ last) 0 =
    Nat.ofDigitChars 10 first 0 * 10 ^ last.length + Nat.ofDigitChars 10 last 0
  rw [Nat.ofDigitChars_append, Nat.ofDigitChars_eq_ofDigitChars_zero, mul_comm]

theorem digitsValue_repr (n : Nat) : digitsValue n.repr.toList = n := by
  rw [Nat.toList_repr]
  exact Nat.ofDigitChars_ten_toDigits

theorem isDigit_of_mem_repr {n : Nat} {c : Char} (member : c ∈ n.repr.toList) :
    c.isDigit = true := by
  rw [Nat.toList_repr] at member
  exact Nat.isDigit_of_mem_toDigits (by decide) (by decide) member

theorem toNat_le_of_isDigit {c : Char} (digit : c.isDigit = true) : c.toNat ≤ 57 := by
  simp only [Char.isDigit, Bool.and_eq_true, decide_eq_true_eq] at digit
  exact UInt32.le_iff_toNat_le.mp digit.2

theorem toLower_of_isDigit {c : Char} (digit : c.isDigit = true) : c.toLower = c := by
  have le := toNat_le_of_isDigit digit
  unfold Char.toLower
  split
  · next upper =>
      have ge : 65 ≤ c.toNat := UInt32.le_iff_toNat_le.mp upper.1
      omega
  · rfl

theorem digitsValue_lt {digits : List Char} (allDigits : ∀ c ∈ digits, c.isDigit = true) :
    digitsValue digits < 10 ^ digits.length := by
  induction digits using List.reverseRecOn with
  | nil => decide
  | append_singleton first last inductionHypothesis =>
      have firstLt := inductionHypothesis fun c member => allDigits c (by simp [member])
      have lastLe := toNat_le_of_isDigit (allDigits last (by simp))
      have lastValue : digitsValue [last] ≤ 9 := by simpa [digitsValue] using lastLe
      rw [digitsValue_append, List.length_append, List.length_singleton, pow_one, pow_succ]
      omega

theorem readMagnitude_point {whole fraction : List Char} (nonempty : whole ≠ [])
    (wholeDigits : ∀ c ∈ whole, c.isDigit = true)
    (fractionDigits : ∀ c ∈ fraction, c.isDigit = true) :
    readMagnitude (whole ++ '.' :: fraction) =
      some (nearest (digitsValue (whole ++ fraction)) (-fraction.length)) := by
  have notDigit : '.'.isDigit = false := by decide
  have before : (whole ++ '.' :: fraction).takeWhile Char.isDigit = whole := by
    rw [List.takeWhile_append_of_pos wholeDigits]
    simp [notDigit]
  have after : (whole ++ '.' :: fraction).dropWhile Char.isDigit = '.' :: fraction := by
    rw [List.dropWhile_append_of_pos wholeDigits]
    simp [notDigit]
  have taken : fraction.takeWhile Char.isDigit = fraction :=
    List.takeWhile_eq_self_iff.mpr fractionDigits
  have dropped : fraction.dropWhile Char.isDigit = [] :=
    List.dropWhile_eq_nil_iff.mpr fractionDigits
  simp [readMagnitude, before, after, taken, dropped, nonempty, readExponent]

theorem readMagnitude_whole {whole : List Char} (nonempty : whole ≠ [])
    (digits : ∀ c ∈ whole, c.isDigit = true) :
    readMagnitude whole = some (nearest (digitsValue whole) 0) := by
  have taken : whole.takeWhile Char.isDigit = whole := List.takeWhile_eq_self_iff.mpr digits
  have dropped : whole.dropWhile Char.isDigit = [] := List.dropWhile_eq_nil_iff.mpr digits
  simp [readMagnitude, taken, dropped, nonempty, readExponent]

theorem splitSign_digit {first : Char} {rest : List Char} (digit : first.isDigit = true) :
    splitSign (first :: rest) = (false, first :: rest) := by
  unfold splitSign
  split
  · next equal =>
      obtain ⟨rfl, _⟩ := List.cons.inj equal
      simp at digit
  · next equal =>
      obtain ⟨rfl, _⟩ := List.cons.inj equal
      simp at digit
  · rfl

theorem readWord_digit {first : Char} {rest : List Char} (digit : first.isDigit = true) :
    readWord (first :: rest) = none := by
  have le := toNat_le_of_isDigit digit
  have notWord (letter : Char) (word : List Char) (above : 57 < letter.toNat) :
      first :: rest.map Char.toLower ≠ letter :: word := by
    intro equal
    obtain ⟨rfl, _⟩ := List.cons.inj equal
    omega
  simp only [readWord, List.map_cons, toLower_of_isDigit digit]
  rw [if_neg, if_neg]
  · exact notWord 'n' ['a', 'n'] (by decide)
  · rintro (inf | infinity)
    · exact notWord 'i' ['n', 'f'] (by decide) inf
    · exact notWord 'i' ['n', 'f', 'i', 'n', 'i', 't', 'y'] (by decide) infinity

/-- A sign in front of what begins with a digit. -/
theorem readNumber_signed {negative : Bool} {first : Char} {rest : List Char} {value : Binary64}
    (digit : first.isDigit = true) (read : readMagnitude (first :: rest) = some value) :
    readNumber ((signText negative).toList ++ first :: rest) =
      some (if negative then value.negate else value) := by
  have split : splitSign ((signText negative).toList ++ first :: rest) =
      (negative, first :: rest) := by
    cases negative with
    | false => exact splitSign_digit digit
    | true => rfl
  simp only [readNumber, split, readWord_digit digit, read, Option.none_or, Option.map_some]

/-- A sign, the digits of a natural number, a point and more digits. -/
theorem readNumber_point {negative : Bool} {whole : Nat} {fraction : List Char}
    (fractionDigits : ∀ c ∈ fraction, c.isDigit = true) :
    readNumber ((signText negative).toList ++ (whole.repr.toList ++ '.' :: fraction)) =
      let magnitude :=
        nearest (whole * 10 ^ fraction.length + digitsValue fraction) (-fraction.length)
      some (if negative then magnitude.negate else magnitude) := by
  have wholeDigits (c : Char) (member : c ∈ whole.repr.toList) : c.isDigit = true :=
    isDigit_of_mem_repr member
  have nonempty : whole.repr.toList ≠ [] := by simp
  have read := readMagnitude_point nonempty wholeDigits fractionDigits
  rw [digitsValue_append, digitsValue_repr] at read
  cases wholeIs : whole.repr.toList with
  | nil => exact absurd wholeIs nonempty
  | cons first rest =>
      rw [wholeIs] at read wholeDigits
      exact readNumber_signed (wholeDigits first List.mem_cons_self) read

/-- A decimal with not too many places reads as the nearest number to a quotient. -/
theorem nearest_eq_quotient {digits places : Nat} (few : places ≤ 400) :
    nearest digits (-places) = Binary64.nearest digits (10 ^ places) := by
  unfold nearest
  split
  · next zero =>
      rw [zero, Binary64.nearest_zero (Nat.pow_pos (by decide))]
  · rw [if_neg (by omega), if_neg (by omega)]
    simp

theorem isFinite_nearest {digits places mantissa scale : Nat} (few : places ≤ 400)
    (short : mantissa < 2 ^ 53) (inRange : scale ≤ 2045)
    (le : digits * Binary64.unitsPerOne ≤ mantissa * (10 ^ places * 2 ^ scale)) :
    (nearest digits (-places)).isFinite = true := by
  unfold nearest
  split
  · rfl
  rw [if_neg (by omega), if_neg (by omega)]
  apply Binary64.isFinite_nearest (Nat.pow_pos (by decide)) short inRange
  simpa using le

end Decimal

end TwoPhase
