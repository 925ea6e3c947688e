import TwoPhase.Proofs.Binary64.Sign
import TwoPhase.Proofs.Decimal.Reading
import TwoPhase.Proofs.Decimal.Shortest

/-!
# Shortest digits written out in full

Written without an exponent, the shortest decimal reads back as the number that it is written for.
So different finite numbers have different texts.
-/

namespace TwoPhase

namespace Binary64

open Float.Model (UnpackedFloat)

theorem unpack_eq_of_ofFloat_eq {x y : Float} {sign : UnpackedFloat.Sign}
    {mantissa : Nat} {exponent : Int} {positive : 0 < mantissa}
    (unpacked : x.toModel.unpack = .finite sign mantissa exponent positive)
    (equal : ofFloat x = ofFloat y) :
    y.toModel.unpack = .finite sign mantissa exponent positive := by
  rw [ofFloat_eq, ofFloat_eq, unpacked] at equal
  have least := (full_of_unpack unpacked).1
  cases other : y.toModel.unpack with
  | notANumber | infinity =>
      rw [other] at equal
      cases equal
  | zero otherSign =>
      rw [other, ofUnpacked, ofUnpacked, finite.injEq] at equal
      omega
  | finite otherSign otherMantissa otherExponent otherPositive =>
      have leastOther := (full_of_unpack other).1
      rw [other, ofUnpacked, ofUnpacked, finite.injEq] at equal
      obtain ⟨sameSign, rfl, sameExponent⟩ := equal
      obtain rfl : exponent = otherExponent := by omega
      cases sign <;> cases otherSign <;> cases sameSign <;> rfl

/-- Units tell finite numbers apart. -/
theorem eq_of_ofFloat_eq {x y : Float} (finite : x.isFinite = true)
    (equal : ofFloat x = ofFloat y) : x = y := by
  apply eq_of_unpack_eq
  change x.toModel.unpack.isFinite = true at finite
  cases unpacked : x.toModel.unpack with
  | notANumber | infinity =>
      rw [unpacked] at finite
      cases finite
  | zero sign =>
      rw [ofFloat_eq, ofFloat_eq, unpacked] at equal
      cases other : y.toModel.unpack with
      | notANumber | infinity =>
          rw [other] at equal
          cases equal
      | zero otherSign =>
          rw [other] at equal
          cases sign <;> cases otherSign <;> cases equal <;> rfl
      | finite otherSign mantissa exponent positive =>
          rw [other, ofUnpacked, ofUnpacked, Binary64.finite.injEq] at equal
          omega
  | finite sign mantissa exponent positive =>
      exact (unpack_eq_of_ofFloat_eq unpacked equal).symm

end Binary64

namespace Decimal

theorem digitsValue_zeros (count : Nat) : digitsValue (List.replicate count '0') = 0 := by
  induction count with
  | zero => rfl
  | succ count inductionHypothesis =>
      rw [List.replicate_succ', digitsValue_append, inductionHypothesis]
      rfl

theorem isDigit_of_mem_zeros {count : Nat} {c : Char} (member : c ∈ List.replicate count '0') :
    c.isDigit = true := by
  rw [List.eq_of_mem_replicate member]
  rfl

theorem toList_zeros (count : Nat) : (zeros count).toList = List.replicate count '0' :=
  String.toList_ofList

/-- The text begins with a digit, consists of digits and points, and reads as the value. -/
structure ReadsAs (text : List Char) (value : Binary64) : Prop where
  begins : ∃ first rest, text = first :: rest ∧ first.isDigit = true
  characters : ∀ c ∈ text, c.isDigit = true ∨ c = '.'
  read : readMagnitude text = some value

theorem exists_digit_cons {text : List Char} (nonempty : text ≠ [])
    (digits : ∀ c ∈ text, c.isDigit = true) (rest : List Char) :
    ∃ first others, text ++ rest = first :: others ∧ first.isDigit = true := by
  obtain ⟨first, others, rfl⟩ := List.exists_cons_of_ne_nil nonempty
  exact ⟨first, others ++ rest, rfl, digits first List.mem_cons_self⟩

theorem readsAs_whole {whole : List Char} (nonempty : whole ≠ [])
    (digits : ∀ c ∈ whole, c.isDigit = true) :
    ReadsAs whole (nearest (digitsValue whole) 0) where
  begins := by simpa using exists_digit_cons nonempty digits []
  characters c member := .inl (digits c member)
  read := readMagnitude_whole nonempty digits

theorem readsAs_point {whole fraction : List Char} (nonempty : whole ≠ [])
    (wholeDigits : ∀ c ∈ whole, c.isDigit = true)
    (fractionDigits : ∀ c ∈ fraction, c.isDigit = true) :
    ReadsAs (whole ++ '.' :: fraction)
      (nearest (digitsValue (whole ++ fraction)) (-fraction.length)) where
  begins := exists_digit_cons nonempty wholeDigits _
  characters c member := by
    rw [List.mem_append, List.mem_cons] at member
    rcases member with inWhole | isPoint | inFraction
    · exact .inl (wholeDigits c inWhole)
    · exact .inr isPoint
    · exact .inl (fractionDigits c inFraction)
  read := readMagnitude_point nonempty wholeDigits fractionDigits

theorem ReadsAs.readNumber {text : List Char} {value : Binary64} (reads : ReadsAs text value)
    (negative : Bool) : readNumber ((signText negative).toList ++ text) =
      some (if negative then value.negate else value) := by
  obtain ⟨first, rest, rfl, digit⟩ := reads.begins
  exact readNumber_signed digit reads.read

section Positional

variable {decimal : Decimal}

theorem readsAs_positional_whole (whole : 0 ≤ decimal.exponent) :
    ReadsAs (positional decimal).toList
      (nearest (decimal.digits * 10 ^ decimal.exponent.toNat) 0) := by
  have text : (positional decimal).toList =
      decimal.digits.repr.toList ++ List.replicate decimal.exponent.toNat '0' := by
    rw [positional, if_pos whole, String.toList_append, toList_zeros]
  have value : digitsValue (positional decimal).toList =
      decimal.digits * 10 ^ decimal.exponent.toNat := by
    rw [text, digitsValue_append, digitsValue_repr, digitsValue_zeros, List.length_replicate,
      add_zero]
  rw [← value]
  apply readsAs_whole
  · simp [text]
  · rw [text, List.forall_mem_append]
    exact ⟨fun c => isDigit_of_mem_repr, fun c => isDigit_of_mem_zeros⟩

/-- A point among digits. -/
theorem readsAs_split {digits : List Char} (digitsOf : ∀ c ∈ digits, c.isDigit = true)
    {places : Nat} (few : places < digits.length) :
    ReadsAs (digits.take (digits.length - places) ++ '.' :: digits.drop (digits.length - places))
      (nearest (digitsValue digits) (-places)) := by
  have nonempty : digits.take (digits.length - places) ≠ [] := by
    rw [← List.length_pos_iff, List.length_take]
    omega
  have before : ∀ c ∈ digits.take (digits.length - places), c.isDigit = true :=
    fun c member => digitsOf c (List.mem_of_mem_take member)
  have after : ∀ c ∈ digits.drop (digits.length - places), c.isDigit = true :=
    fun c member => digitsOf c (List.mem_of_mem_drop member)
  have reads := readsAs_point nonempty before after
  rwa [List.take_append_drop, List.length_drop, Nat.sub_sub_self few.le] at reads

/-- A point and zeros in front of digits. -/
theorem readsAs_zeros {digits : List Char} (digitsOf : ∀ c ∈ digits, c.isDigit = true)
    {places : Nat} (many : digits.length ≤ places) :
    ReadsAs (['0'] ++ '.' :: (List.replicate (places - digits.length) '0' ++ digits))
      (nearest (digitsValue digits) (-places)) := by
  have before : ∀ c ∈ ['0'], c.isDigit = true := fun c => @isDigit_of_mem_zeros 1 c
  have after : ∀ c ∈ List.replicate (places - digits.length) '0' ++ digits, c.isDigit = true :=
    List.forall_mem_append.mpr ⟨fun c => isDigit_of_mem_zeros, digitsOf⟩
  have value : digitsValue (['0'] ++ (List.replicate (places - digits.length) '0' ++ digits)) =
      digitsValue digits := by
    rw [digitsValue_append, digitsValue_append, digitsValue_zeros, zero_mul, zero_add]
    change 0 * _ + _ = _
    rw [zero_mul, zero_add]
  have reads := readsAs_point (List.cons_ne_nil _ _) before after
  rwa [value, List.length_append, List.length_replicate, Nat.sub_add_cancel many] at reads

theorem readsAs_positional_point (fraction : decimal.exponent < 0) :
    ReadsAs (positional decimal).toList (nearest decimal.digits decimal.exponent) := by
  obtain ⟨places, isExponent⟩ := Int.exists_eq_neg_ofNat fraction.le
  have isPlaces : (-decimal.exponent).toNat = places := by omega
  have digitsOf (c : Char) : c ∈ decimal.digits.repr.toList → c.isDigit = true :=
    isDigit_of_mem_repr
  have length : decimal.digits.repr.length = decimal.digits.repr.toList.length :=
    String.length_toList.symm
  unfold positional
  rw [if_neg (not_le.mpr fraction), isPlaces, isExponent]
  dsimp only
  split
  · next among =>
      have reads := readsAs_split digitsOf (length ▸ among)
      rw [digitsValue_repr, ← length] at reads
      simpa using reads
  · next behind =>
      have reads := readsAs_zeros digitsOf (length ▸ not_lt.mp behind)
      rw [digitsValue_repr, ← length] at reads
      simpa [toList_zeros] using reads

/-- Written out in full, a decimal with not too many places reads as the number nearest to it. -/
theorem readsAs_positional (few : -400 ≤ decimal.exponent) :
    ReadsAs (positional decimal).toList
      (Binary64.nearest (decimal.digits * 10 ^ decimal.exponent.toNat)
        (10 ^ (-decimal.exponent).toNat)) := by
  rcases Int.lt_or_le decimal.exponent 0 with fraction | whole
  · have reads := readsAs_positional_point fraction
    obtain ⟨places, isExponent⟩ := Int.exists_eq_neg_ofNat fraction.le
    rw [isExponent, nearest_eq_quotient (by omega)] at reads
    simpa [isExponent] using reads
  · have reads := readsAs_positional_whole whole
    have read := @nearest_eq_quotient (decimal.digits * 10 ^ decimal.exponent.toNat) 0 (by decide)
    rw [Nat.cast_zero, neg_zero] at read
    rw [read] at reads
    have noPlaces : (-decimal.exponent).toNat = 0 := by omega
    rw [noPlaces]
    exact reads

end Positional

section Plain

variable {x y : Float}

theorem readsAs_shortest {negative : Bool} {mantissa scale : Nat}
    (representable : (Binary64.finite negative mantissa scale).Representable)
    (positive : 0 < mantissa) :
    ReadsAs (positional (shortest mantissa scale)).toList (.finite false mantissa scale) := by
  have spec := @shortest_spec mantissa scale positive representable.1
  have isNearest := Binary64.nearest_eq_of_roundsTo (Nat.pow_pos (by decide)) representable spec.2
  rw [← isNearest]
  exact readsAs_positional (by omega)

/-- A finite number is written as a sign and digits that read as its magnitude. -/
theorem exists_plain_eq (finite : x.isFinite = true) :
    ∃ negative text mantissa scale, (plain x).toList = (signText negative).toList ++ text ∧
      ReadsAs text (.finite false mantissa scale) ∧
      Binary64.ofFloat x = .finite negative mantissa scale := by
  have representable := Binary64.representable_ofFloat x
  obtain ⟨negative, mantissa, scale, isFinite, _, _⟩ := Binary64.exists_ofFloat_eq_finite finite
  rw [isFinite] at representable
  unfold plain
  rw [isFinite]
  cases mantissa with
  | zero =>
      obtain rfl : scale = 0 := representable.2.2 (by decide)
      refine ⟨negative, ['0'], 0, 0, by simp, ?_, rfl⟩
      exact readsAs_whole (List.cons_ne_nil _ _) fun c => @isDigit_of_mem_zeros 1 c
  | succ mantissa =>
      exact ⟨negative, _, _, _, String.toList_append,
        readsAs_shortest representable (Nat.succ_pos mantissa), rfl⟩

/-- What is written for a finite number reads back as this number. -/
theorem readNumber_plain (finite : x.isFinite = true) :
    readNumber (plain x).toList = some (Binary64.ofFloat x) := by
  obtain ⟨negative, text, mantissa, scale, isText, reads, isNumber⟩ := exists_plain_eq finite
  rw [isText, reads.readNumber, isNumber]
  cases negative <;> rfl

theorem plain_injective (finite : x.isFinite = true) (finiteOther : y.isFinite = true)
    (same : plain x = plain y) : x = y := by
  have read := readNumber_plain finite
  rw [same, readNumber_plain finiteOther, Option.some_inj] at read
  exact Binary64.eq_of_ofFloat_eq finite read.symm

theorem characters_plain (finite : x.isFinite = true) :
    ∀ c ∈ (plain x).toList, c.isDigit = true ∨ c = '.' ∨ c = '-' := by
  obtain ⟨negative, text, mantissa, scale, isText, reads, _⟩ := exists_plain_eq finite
  rw [isText, List.forall_mem_append]
  constructor
  · intro c member
    cases negative with
    | false => cases member
    | true => exact .inr (.inr (List.mem_singleton.mp member))
  · intro c member
    rcases reads.characters c member with digit | point
    · exact .inl digit
    · exact .inr (.inl point)

end Plain

end Decimal

end TwoPhase
