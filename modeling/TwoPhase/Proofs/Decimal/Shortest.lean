import TwoPhase.Decimal.Shortest
import TwoPhase.Proofs.Binary64.Closest

/-!
# The shortest decimal reads back

A neighbour on a decimal grid is taken if it lies in the interval that rounds to the number.  The
finest grid that is tried is finer than this interval, so one of its neighbours is taken at the
latest, and the search ends with a decimal of which the number is the nearest one.
-/

namespace TwoPhase.Decimal

open Binary64 (unitsPerOne fullMantissa quotientUnits RoundsTo)

section Grid

variable {mantissa scale : Nat} {exponent : Int}

/-- A number of units on a grid, in quarters of a unit. -/
def gridValue (mantissa scale : Nat) (exponent : Int) : Nat :=
  4 * Binary64.units mantissa scale * 10 ^ (-exponent).toNat

/-- The distance of two neighbours on the grid. -/
def gridStep (exponent : Int) : Nat :=
  4 * (unitsPerOne * 10 ^ exponent.toNat)

/-- Half the worth of the last bit. -/
def gridReach (scale : Nat) (exponent : Int) : Nat :=
  2 * 2 ^ scale * 10 ^ (-exponent).toNat

/-- How far below a number the decimals that round to it reach. -/
def gridReachBelow (mantissa scale : Nat) (exponent : Int) : Nat :=
  if mantissa = fullMantissa ∧ 0 < scale then gridReach scale exponent / 2
  else gridReach scale exponent

/-- A distance within reach, which an odd mantissa does not extend to its end. -/
def IsWithinReach (mantissa distance reach : Nat) : Prop :=
  if mantissa % 2 = 0 then distance ≤ reach else distance < reach

/-- The last multiple of a step up to the number. -/
def gridLower (mantissa scale : Nat) (exponent : Int) : Nat :=
  gridValue mantissa scale exponent / gridStep exponent

/-- Whether the lower neighbour rounds to the number. -/
def LowerRounds (mantissa scale : Nat) (exponent : Int) : Prop :=
  IsWithinReach mantissa
    (gridValue mantissa scale exponent - gridLower mantissa scale exponent * gridStep exponent)
    (gridReachBelow mantissa scale exponent)

def UpperRounds (mantissa scale : Nat) (exponent : Int) : Prop :=
  IsWithinReach mantissa
    ((gridLower mantissa scale exponent + 1) * gridStep exponent -
      gridValue mantissa scale exponent)
    (gridReach scale exponent)

theorem decide_isWithinReach (mantissa distance reach : Nat) :
    (if mantissa % 2 = 0 then decide (distance ≤ reach) else decide (distance < reach)) = true ↔
      IsWithinReach mantissa distance reach := by
  unfold IsWithinReach
  split <;> exact decide_eq_true_iff

/-- Only the neighbours of the number are taken, and only if they round to it. -/
theorem neighbour?_eq_some {decimal : Decimal}
    (found : neighbour? mantissa scale exponent = some decimal) :
    decimal.exponent = exponent ∧
      (decimal.digits = gridLower mantissa scale exponent ∧ LowerRounds mantissa scale exponent ∨
        decimal.digits = gridLower mantissa scale exponent + 1 ∧
          UpperRounds mantissa scale exponent) := by
  unfold neighbour? at found
  dsimp only at found
  split at found
  · next lower upper =>
      cases found
      refine ⟨rfl, ?_⟩
      split
      · exact .inl ⟨rfl, (decide_isWithinReach _ _ _).mp lower⟩
      · exact .inr ⟨rfl, (decide_isWithinReach _ _ _).mp upper⟩
  · next lower _ =>
      cases found
      exact ⟨rfl, .inl ⟨rfl, (decide_isWithinReach _ _ _).mp lower⟩⟩
  · next _ upper =>
      cases found
      exact ⟨rfl, .inr ⟨rfl, (decide_isWithinReach _ _ _).mp upper⟩⟩
  · cases found

theorem neighbour?_ne_none
    (rounds : LowerRounds mantissa scale exponent ∨ UpperRounds mantissa scale exponent) :
    neighbour? mantissa scale exponent ≠ none := by
  intro none
  unfold neighbour? at none
  dsimp only at none
  split at none
  · cases none
  · cases none
  · cases none
  · next notLower notUpper =>
      rw [← Bool.not_eq_true] at notLower notUpper
      rcases rounds with lower | upper
      · exact notLower ((decide_isWithinReach _ _ _).mpr lower)
      · exact notUpper ((decide_isWithinReach _ _ _).mpr upper)

theorem gridStep_pos (exponent : Int) : 0 < gridStep exponent :=
  Nat.mul_pos (by decide) (Nat.mul_pos Binary64.unitsPerOne_pos (Nat.pow_pos (by decide)))

theorem gridReach_pos (scale : Nat) (exponent : Int) : 0 < gridReach scale exponent :=
  Nat.mul_pos (Nat.mul_pos (by decide) (Nat.two_pow_pos scale)) (Nat.pow_pos (by decide))

theorem gridValue_eq (mantissa scale : Nat) (exponent : Int) :
    gridValue mantissa scale exponent = 2 * mantissa * gridReach scale exponent := by
  rw [gridValue, gridReach, Binary64.units_eq]
  ring

/-- A decimal on the grid as a quotient. -/
def gridUnits (digits : Nat) (exponent : Int) : ℚ :=
  quotientUnits (digits * 10 ^ exponent.toNat) (10 ^ (-exponent).toNat)

/-- The distance in worths of the last bit is the one on the grid, up to a factor. -/
theorem sub_gridUnits_div (mantissa scale digits : Nat) (exponent : Int) :
    (mantissa : ℚ) - gridUnits digits exponent / 2 ^ scale =
      ((gridValue mantissa scale exponent : ℚ) - (digits * gridStep exponent : ℕ)) /
        (2 * gridReach scale exponent) := by
  rw [gridUnits, quotientUnits, gridStep, gridValue_eq, gridReach]
  have bit : (0 : ℚ) < 2 ^ scale := by positivity
  have places : (0 : ℚ) < 10 ^ (-exponent).toNat := by positivity
  push_cast
  generalize (unitsPerOne : ℚ) = one
  generalize (2 : ℚ) ^ scale = worth at bit
  generalize (10 : ℚ) ^ (-exponent).toNat = denominator at places
  generalize (10 : ℚ) ^ exponent.toNat = power
  field_simp
  ring

end Grid

section Rounds

variable {mantissa scale : Nat} {exponent : Int}

theorem IsWithinReach.le {distance reach : Nat} (within : IsWithinReach mantissa distance reach) :
    distance ≤ reach := by
  unfold IsWithinReach at within
  split at within
  · exact within
  · exact within.le

theorem IsWithinReach.even {distance reach : Nat} (within : IsWithinReach mantissa distance reach)
    (ends : distance = reach) : mantissa % 2 = 0 := by
  unfold IsWithinReach at within
  split at within
  · next even => exact even
  · exact absurd ends within.ne

theorem isWithinReach_of_lt {distance reach : Nat} (less : distance < reach) :
    IsWithinReach mantissa distance reach := by
  unfold IsWithinReach
  split
  · exact less.le
  · exact less

theorem gridReachBelow_le (mantissa scale : Nat) (exponent : Int) :
    gridReachBelow mantissa scale exponent ≤ gridReach scale exponent := by
  unfold gridReachBelow
  split
  · exact Nat.div_le_self _ _
  · exact le_rfl

/-- A decimal at this distance on the grid rounds to the number. -/
theorem roundsTo_of_distance {digits : Nat} {distance : Int}
    (isDistance : (gridValue mantissa scale exponent : Int) - (digits * gridStep exponent : ℕ) =
      distance)
    (near : |distance| ≤ gridReach scale exponent)
    (tie : |distance| = gridReach scale exponent → mantissa % 2 = 0)
    (full : mantissa = fullMantissa → 0 < scale → 2 * distance ≤ gridReach scale exponent) :
    RoundsTo (gridUnits digits exponent) mantissa scale := by
  have positive : (0 : ℚ) < gridReach scale exponent :=
    Nat.cast_pos.mpr (gridReach_pos scale exponent)
  have twice : (0 : ℚ) < 2 * gridReach scale exponent := by linarith
  have castDistance : (mantissa : ℚ) - gridUnits digits exponent / 2 ^ scale =
      distance / (2 * gridReach scale exponent) := by
    rw [sub_gridUnits_div, ← isDistance]
    push_cast
    rfl
  rw [← Int.cast_le (R := ℚ), Int.cast_abs, Int.cast_natCast] at near
  rw [← Int.cast_inj (α := ℚ), Int.cast_abs, Int.cast_natCast] at tie
  constructor
  · rw [castDistance, abs_div, abs_of_pos twice, div_le_iff₀ twice]
    linarith
  · intro half
    rw [castDistance, abs_div, abs_of_pos twice, div_eq_iff twice.ne'] at half
    exact tie (by linarith)
  · intro isFull shifted
    have close : (2 * distance : ℚ) ≤ gridReach scale exponent := by
      exact_mod_cast full isFull shifted
    rw [castDistance, div_le_iff₀ twice]
    linarith

theorem gridLower_mul_le (mantissa scale : Nat) (exponent : Int) :
    gridLower mantissa scale exponent * gridStep exponent ≤ gridValue mantissa scale exponent :=
  Nat.div_mul_le_self _ _

theorem lt_gridLower_succ_mul (mantissa scale : Nat) (exponent : Int) :
    gridValue mantissa scale exponent <
      (gridLower mantissa scale exponent + 1) * gridStep exponent :=
  (Nat.div_lt_iff_lt_mul (gridStep_pos exponent)).mp (Nat.lt_succ_self _)

theorem LowerRounds.roundsTo (rounds : LowerRounds mantissa scale exponent) :
    RoundsTo (gridUnits (gridLower mantissa scale exponent) exponent) mantissa scale := by
  obtain ⟨distance, isValue⟩ :=
    Nat.exists_eq_add_of_le (gridLower_mul_le mantissa scale exponent)
  rw [LowerRounds, isValue, Nat.add_sub_cancel_left] at rounds
  have reachLe := gridReachBelow_le mantissa scale exponent
  have isDistance : (gridValue mantissa scale exponent : Int) -
      (gridLower mantissa scale exponent * gridStep exponent : ℕ) = distance := by omega
  apply roundsTo_of_distance isDistance
  · rw [Nat.abs_cast, Int.ofNat_le]
    exact rounds.le.trans reachLe
  · rw [Nat.abs_cast, Int.ofNat_inj]
    intro ends
    exact rounds.even (le_antisymm rounds.le (ends ▸ reachLe))
  · intro isFull shifted
    have close := rounds.le
    rw [gridReachBelow, if_pos ⟨isFull, shifted⟩] at close
    omega

theorem UpperRounds.roundsTo (rounds : UpperRounds mantissa scale exponent) :
    RoundsTo (gridUnits (gridLower mantissa scale exponent + 1) exponent) mantissa scale := by
  obtain ⟨distance, isStep⟩ :=
    Nat.exists_eq_add_of_le (lt_gridLower_succ_mul mantissa scale exponent).le
  rw [UpperRounds, isStep, Nat.add_sub_cancel_left] at rounds
  have isDistance : (gridValue mantissa scale exponent : Int) -
      ((gridLower mantissa scale exponent + 1) * gridStep exponent : ℕ) = -(distance : Int) := by
    omega
  apply roundsTo_of_distance isDistance
  · rw [abs_neg, Nat.abs_cast, Int.ofNat_le]
    exact rounds.le
  · rw [abs_neg, Nat.abs_cast, Int.ofNat_inj]
    exact rounds.even
  · omega

theorem roundsTo_of_neighbour? {decimal : Decimal}
    (found : neighbour? mantissa scale exponent = some decimal) :
    RoundsTo (gridUnits decimal.digits decimal.exponent) mantissa scale := by
  obtain ⟨isExponent, ⟨isLower, rounds⟩ | ⟨isUpper, rounds⟩⟩ := neighbour?_eq_some found
  · rw [isExponent, isLower]
    exact rounds.roundsTo
  · rw [isExponent, isUpper]
    exact rounds.roundsTo

/-- Sixteen more digits than the number make a grid finer than the interval that rounds to it. -/
theorem gridStep_lt (short : mantissa < 2 ^ 53)
    (fine : gridStep exponent * 10 ^ 16 ≤ gridValue mantissa scale exponent) :
    gridStep exponent <
      gridReachBelow mantissa scale exponent + gridReach scale exponent := by
  have positive := gridReach_pos scale exponent
  rw [gridValue_eq] at fine
  unfold gridReachBelow
  split
  · next isFull =>
      -- The reach below is halved, but the mantissa is only half as large as it can be.
      rw [isFull.1, Binary64.fullMantissa_eq] at fine
      omega
  · have bounded : 2 * mantissa * gridReach scale exponent ≤
        2 * 2 ^ 53 * gridReach scale exponent :=
      Nat.mul_le_mul_right _ (Nat.mul_le_mul_left 2 short.le)
    omega

/-- One neighbour on such a grid rounds to the number. -/
theorem neighbour?_ne_none_of_fine (short : mantissa < 2 ^ 53)
    (fine : gridStep exponent * 10 ^ 16 ≤ gridValue mantissa scale exponent) :
    neighbour? mantissa scale exponent ≠ none := by
  have narrow := gridStep_lt short fine
  have lowerLe := gridLower_mul_le mantissa scale exponent
  have ltUpper := lt_gridLower_succ_mul mantissa scale exponent
  apply neighbour?_ne_none
  -- The distances to the neighbours add up to a step, so one of them is within reach.
  by_cases close : gridValue mantissa scale exponent -
      gridLower mantissa scale exponent * gridStep exponent <
        gridReachBelow mantissa scale exponent
  · exact .inl (isWithinReach_of_lt close)
  · refine .inr (isWithinReach_of_lt ?_)
    rw [Nat.succ_mul] at ltUpper ⊢
    omega

end Rounds

section Search

variable {mantissa scale : Nat}

/-- The search ends with a neighbour as soon as there is one on some grid. -/
theorem search_found {grids tried : Nat} {exponent : Int} (less : tried < grids)
    (found : neighbour? mantissa scale (exponent - tried) ≠ none) :
    ∃ decimal, search mantissa scale grids exponent = decimal ∧
      exponent - tried ≤ decimal.exponent ∧
      neighbour? mantissa scale decimal.exponent = some decimal := by
  induction grids generalizing tried exponent with
  | zero => exact absurd less (Nat.not_lt_zero _)
  | succ grids inductionHypothesis =>
      rw [search]
      cases first : neighbour? mantissa scale exponent with
      | some decimal =>
          have isExponent := (neighbour?_eq_some first).1
          exact ⟨decimal, rfl, by omega, isExponent ▸ first⟩
      | none =>
          cases tried with
          | zero =>
              rw [Nat.cast_zero, sub_zero] at found
              exact absurd first found
          | succ tried =>
              have next : exponent - (tried + 1 : ℕ) = exponent - 1 - tried := by
                push_cast
                ring
              rw [next] at found ⊢
              exact inductionHypothesis (Nat.succ_lt_succ_iff.mp less) found

theorem pow_length_repr_le {n : Nat} (positive : 0 < n) : 10 ^ (n.repr.length - 1) ≤ n := by
  by_cases single : n.repr.length - 1 = 0
  · rwa [single, pow_zero]
  · by_contra less
    have := (Nat.length_repr_le_iff (Nat.pos_of_ne_zero single)).mpr (not_le.mp less)
    omega

theorem pow_length_repr_mul_le {value one : Nat} (positive : 0 < one) (le : one ≤ value) :
    10 ^ ((value / one).repr.length - 1) * one ≤ value :=
  (Nat.le_div_iff_mul_le positive).mp (pow_length_repr_le (Nat.div_pos le positive))

theorem unitsPerOne_le : unitsPerOne ≤ Nat.pow 10 350 := by
  decide +kernel

/-- The count of digits by which the magnitude is found. -/
def lengthOfMagnitude (units : Nat) : Nat :=
  (units * Nat.pow 10 350 / unitsPerOne).repr.length

theorem magnitude_eq (units : Nat) : magnitude units = (lengthOfMagnitude units : Int) - 350 :=
  rfl

theorem pow_lengthOfMagnitude_le {units : Nat} (positive : 0 < units) :
    10 ^ (lengthOfMagnitude units - 1) * unitsPerOne ≤ units * Nat.pow 10 350 :=
  pow_length_repr_mul_le Binary64.unitsPerOne_pos
    (unitsPerOne_le.trans (Nat.le_mul_of_pos_left _ positive))

/-- Both sides times the same power of ten are the bounds on the magnitude. -/
theorem mul_pow_le_of_length {one units length extra power places : Nat} (positive : 0 < length)
    (bound : 10 ^ (length - 1) * one ≤ units * Nat.pow 10 extra)
    (sum : power + 17 + extra = places + length) :
    one * 10 ^ power * 10 ^ 16 ≤ units * 10 ^ places := by
  rw [Nat.pow_eq] at bound
  apply Nat.le_of_mul_le_mul_right _ (Nat.pow_pos (by decide) : 0 < 10 ^ (extra + 1))
  calc one * 10 ^ power * 10 ^ 16 * 10 ^ (extra + 1)
      = one * 10 ^ (power + 16 + (extra + 1)) := by
        rw [mul_assoc one, ← pow_add, mul_assoc one, ← pow_add]
    _ = one * 10 ^ (length - 1 + (places + 1)) := by
        rw [(by omega : power + 16 + (extra + 1) = length - 1 + (places + 1))]
    _ = 10 ^ (length - 1) * one * 10 ^ (places + 1) := by
        rw [pow_add, ← mul_assoc, mul_comm one]
    _ ≤ units * 10 ^ extra * 10 ^ (places + 1) := Nat.mul_le_mul_right _ bound
    _ = units * 10 ^ places * 10 ^ (extra + 1) := by
        rw [mul_assoc, mul_assoc, ← pow_add, ← pow_add, ← add_assoc, ← add_assoc, add_comm extra]

/-- The last grid of the search is fine enough. -/
theorem gridStep_mul_le (positive : 0 < mantissa) :
    gridStep (magnitude (Binary64.units mantissa scale) - 17) * 10 ^ 16 ≤
      gridValue mantissa scale (magnitude (Binary64.units mantissa scale) - 17) := by
  have units : 0 < Binary64.units mantissa scale := by
    rw [Binary64.units_eq]
    exact Nat.mul_pos positive (Nat.two_pow_pos scale)
  have length : 0 < lengthOfMagnitude (Binary64.units mantissa scale) := Nat.length_repr_pos
  rw [gridStep, gridValue, mul_assoc, mul_assoc 4]
  apply Nat.mul_le_mul_left
  apply mul_pow_le_of_length length (pow_lengthOfMagnitude_le units)
  rw [magnitude_eq]
  omega

theorem shortest_spec (positive : 0 < mantissa) (short : mantissa < 2 ^ 53) :
    -366 ≤ (shortest mantissa scale).exponent ∧
      RoundsTo (gridUnits (shortest mantissa scale).digits (shortest mantissa scale).exponent)
        mantissa scale := by
  have found :=
    neighbour?_ne_none_of_fine short (gridStep_mul_le positive : _ ≤ gridValue _ scale _)
  obtain ⟨decimal, isShortest, above, isNeighbour⟩ :=
    @search_found _ _ 18 17 _ (by decide) found
  have length : 0 < lengthOfMagnitude (Binary64.units mantissa scale) := Nat.length_repr_pos
  rw [magnitude_eq] at above
  rw [shortest, isShortest]
  exact ⟨by omega, roundsTo_of_neighbour? isNeighbour⟩

end Search

end TwoPhase.Decimal
