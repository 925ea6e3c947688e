import Mathlib.Data.List.Forall2
import TwoPhase.Proofs.Binary64.Bits
import TwoPhase.Proofs.Problem.Dense

/-!
# Words that spell numbers and problems

A sequence of words spells a problem if it consists of two counts and of as many numbers as they
ask for.  Their number alone decides how they fall into an objective and rows.
-/

namespace TwoPhase

open Problem (dense ofDense rowValues)

section Numbers

/-- The word reads as a finite number, and this is its value. -/
def SpellsNumber (word : List Char) (value : Float) : Prop :=
  ∃ read, Decimal.readNumber word = some read ∧ read.isFinite = true ∧ read.toFloat = value

theorem SpellsNumber.isFinite {word : List Char} {value : Float}
    (spells : SpellsNumber word value) : Scalar.isFinite value = true := by
  obtain ⟨read, isRead, finite, rfl⟩ := spells
  change read.toFloat.isFinite = true
  rw [Binary64.isFinite_toFloat (Decimal.representable_of_readNumber isRead), finite]

/-- The words spell these numbers in order. -/
abbrev Spell (words : List (List Char)) (values : List Float) : Prop :=
  List.Forall₂ SpellsNumber words values

theorem spell_singleton_iff {words : List (List Char)} {value : Float} :
    Spell words [value] ↔ ∃ word, words = [word] ∧ SpellsNumber word value := by
  rw [Spell, List.forall₂_cons_right_iff]
  constructor
  · rintro ⟨word, _, spells, _ | _, rfl⟩
    exact ⟨word, rfl, spells⟩
  · rintro ⟨word, rfl, spells⟩
    exact ⟨word, [], spells, .nil, rfl⟩

theorem spell_append_iff {words : List (List Char)} {first second : List Float} :
    Spell words (first ++ second) ↔
      ∃ front back, words = front ++ back ∧ Spell front first ∧ Spell back second := by
  constructor
  · intro spell
    exact ⟨_, _, (List.take_append_drop first.length words).symm,
      List.forall₂_take_append _ _ _ spell, List.forall₂_drop_append _ _ _ spell⟩
  · rintro ⟨front, back, rfl, spellFirst, spellSecond⟩
    exact List.rel_append spellFirst spellSecond

theorem Spell.isFinite {words : List (List Char)} {values : List Float}
    (spell : Spell words values) : ∀ value ∈ values, Scalar.isFinite value = true := by
  induction spell with
  | nil => simp
  | cons spells _ inductionHypothesis =>
      exact List.forall_mem_cons.mpr ⟨spells.isFinite, inductionHypothesis⟩

theorem exists_spell_iff {words : List (List Char)} :
    (∃ values, Spell words values) ↔ ∀ word ∈ words, ∃ value, SpellsNumber word value := by
  induction words with
  | nil => exact ⟨by simp, fun _ => ⟨[], .nil⟩⟩
  | cons word words inductionHypothesis =>
      rw [List.forall_mem_cons, ← inductionHypothesis]
      constructor
      · rintro ⟨_, _ | ⟨spells, spell⟩⟩
        exact ⟨⟨_, spells⟩, _, spell⟩
      · rintro ⟨⟨value, spells⟩, values, spell⟩
        exact ⟨value :: values, .cons spells spell⟩

end Numbers

section Rows

/-- Enough numbers for some rows make up these rows. -/
theorem exists_rows {m n : Nat} {numbers : List Float} (length : numbers.length = n * (m + 1)) :
    ∃ rows : List (List Float × Float), numbers = rows.flatMap rowValues ∧ rows.length = n ∧
      ∀ row ∈ rows, row.1.length = m := by
  induction n generalizing numbers with
  | zero =>
      rw [Nat.zero_mul, List.length_eq_zero_iff] at length
      exact ⟨[], length, rfl, by simp⟩
  | succ n inductionHypothesis =>
      rw [Nat.succ_mul] at length
      have later : (numbers.drop (m + 1)).length = n * (m + 1) := by
        rw [List.length_drop, length, Nat.add_sub_cancel]
      obtain ⟨rows, split, amount, lengths⟩ := inductionHypothesis later
      have inRow : m < numbers.length := by omega
      refine ⟨(numbers.take m, numbers[m]) :: rows, ?_, by rw [List.length_cons, amount], ?_⟩
      · rw [List.flatMap_cons, ← split, rowValues, ← List.take_succ_eq_append_getElem inRow,
          List.take_append_drop]
      · rintro row (_ | ⟨_, member⟩)
        · exact List.length_take_of_le inRow.le
        · exact lengths row member

theorem length_flatMap_rowValues {m : Nat} {rows : List (List Float × Float)}
    (lengths : ∀ row ∈ rows, row.1.length = m) :
    (rows.flatMap rowValues).length = rows.length * (m + 1) := by
  induction rows with
  | nil => rw [List.flatMap_nil, List.length_nil, List.length_nil, Nat.zero_mul]
  | cons row rows inductionHypothesis =>
      rw [List.forall_mem_cons] at lengths
      rw [List.flatMap_cons, List.length_append, inductionHypothesis lengths.2, rowValues,
        List.length_append, lengths.1, List.length_singleton, List.length_cons, Nat.succ_mul,
        Nat.add_comm]

end Rows

section Problem

/-- Two counts, and then the objective and the rows that they ask for. -/
def SpellsProblem (words : List (List Char)) (objective : List Float)
    (rows : List (List Float × Float)) : Prop :=
  ∃ first second rest n m, words = first :: second :: rest ∧
    Decimal.readCount first = some n ∧ Decimal.readCount second = some m ∧
    Spell rest (objective ++ rows.flatMap rowValues) ∧
    objective.length = m.toNat ∧ rows.length = n.toNat ∧ ∀ row ∈ rows, row.1.length = m.toNat

theorem SpellsProblem.ofDense_eq {words : List (List Char)} {objective : List Float}
    {rows : List (List Float × Float)} (spells : SpellsProblem words objective rows) :
    ofDense objective rows = .ok (dense objective rows) := by
  obtain ⟨_, _, _, n, m, _, _, _, spell, length, _, lengths⟩ := spells
  have finite := Spell.isFinite spell
  apply Problem.ofDense_eq
  · intro value member
    exact finite value (List.mem_append_left _ member)
  · intro row member
    refine ⟨(lengths row member).trans length.symm, fun value inRow => ?_⟩
    exact finite value (List.mem_append_right _ (List.mem_flatMap.mpr ⟨row, member, inRow⟩))

theorem exists_spellsProblem_iff {words : List (List Char)} :
    (∃ objective rows, SpellsProblem words objective rows) ↔
      ∃ first second rest n m, words = first :: second :: rest ∧
        Decimal.readCount first = some n ∧ Decimal.readCount second = some m ∧
        words.length = 2 + m.toNat + n.toNat * (m.toNat + 1) ∧
        ∀ word ∈ rest, ∃ value, SpellsNumber word value := by
  constructor
  · rintro ⟨objective, rows, first, second, rest, n, m, rfl, isFirst, isSecond, spell, size, amount,
      sizes⟩
    refine ⟨first, second, rest, n, m, rfl, isFirst, isSecond, ?_, exists_spell_iff.mp ⟨_, spell⟩⟩
    rw [List.length_cons, List.length_cons, spell.length_eq, List.length_append, size,
      length_flatMap_rowValues sizes, amount]
    omega
  · rintro ⟨first, second, rest, n, m, rfl, isFirst, isSecond, length, readable⟩
    obtain ⟨numbers, spell⟩ := exists_spell_iff.mpr readable
    have total : numbers.length = m.toNat + n.toNat * (m.toNat + 1) := by
      rw [← spell.length_eq]
      simp only [List.length_cons] at length
      omega
    have after : (numbers.drop m.toNat).length = n.toNat * (m.toNat + 1) := by
      rw [List.length_drop, total, Nat.add_sub_cancel_left]
    obtain ⟨rows, split, amount, lengths⟩ := exists_rows after
    refine ⟨numbers.take m.toNat, rows, first, second, rest, n, m, rfl, isFirst, isSecond, ?_, ?_,
      amount, lengths⟩
    · rwa [← split, List.take_append_drop]
    · exact List.length_take_of_le (total ▸ Nat.le_add_right _ _)

end Problem

end TwoPhase
