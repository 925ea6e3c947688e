import TwoPhase.Proofs.Problem.Reading

/-!
# Words that begin a problem

Words begin a problem if the first two are counts, the others are finite numbers, and these are no
more than the counts ask for.  Every text determines how many of its words do, and what stands in it
up to there is the beginning of a text that is a problem: zeros can be put in the missing places.
-/

namespace TwoPhase

open Text (IsGap EndsWord Leads Separated)

/-- The word reads as a finite number. -/
def ReadsNumber (word : List Char) : Prop :=
  ∃ value, SpellsNumber word value

/-- Two counts and then finite numbers, each as far as there are words. -/
inductive BeginsProblem : List (List Char) → Prop
  | nothing : BeginsProblem []
  | count {first : List Char} {n : UInt64} :
      Decimal.readCount first = some n → BeginsProblem [first]
  | numbers {first second : List Char} {numbers : List (List Char)} {n m : UInt64} :
      Decimal.readCount first = some n → Decimal.readCount second = some m →
      (∀ word ∈ numbers, ReadsNumber word) →
      numbers.length ≤ m.toNat + n.toNat * (m.toNat + 1) →
        BeginsProblem (first :: second :: numbers)

/-- The section that asks for the word after these. -/
inductive Asks : List (List Char) → Section → Prop
  | constraintCount : Asks [] .constraintCount
  | variableCount {first : List Char} : Asks [first] .variableCount
  | objective {first second : List Char} {numbers : List (List Char)} {n m : UInt64} :
      Decimal.readCount first = some n → Decimal.readCount second = some m →
      numbers.length < m.toNat → Asks (first :: second :: numbers) .objective
  | rows {first second : List Char} {numbers : List (List Char)} {n m : UInt64} :
      Decimal.readCount first = some n → Decimal.readCount second = some m →
      m.toNat ≤ numbers.length → numbers.length < m.toNat + n.toNat * (m.toNat + 1) →
        Asks (first :: second :: numbers) .rows
  | ending {first second : List Char} {numbers : List (List Char)} {n m : UInt64} :
      Decimal.readCount first = some n → Decimal.readCount second = some m →
      numbers.length = m.toNat + n.toNat * (m.toNat + 1) →
        Asks (first :: second :: numbers) .ending

/-- The words of the text up to `rest` begin a problem, and with one more word they would not. -/
structure StopsAfter (text : List Char) (words : List (List Char)) (rest : List Char) : Prop where
  leads : Leads words text rest
  begins : BeginsProblem words
  refuses {word after : List Char} : Leads [word] rest after → ¬ BeginsProblem (words ++ [word])

section Words

variable {words more : List (List Char)}

theorem BeginsProblem.of_append (begins : BeginsProblem (words ++ more)) : BeginsProblem words := by
  rcases words with _ | ⟨first, _ | ⟨second, values⟩⟩
  · exact .nothing
  · rw [List.singleton_append] at begins
    cases begins with
    | count isFirst => exact .count isFirst
    | numbers isFirst _ _ _ => exact .count isFirst
  · rw [List.cons_append, List.cons_append] at begins
    cases begins with
    | numbers isFirst isSecond readable within =>
        rw [List.length_append] at within
        exact .numbers isFirst isSecond (fun word member => readable word (by simp [member]))
          (Nat.le_of_add_right_le within)

theorem readCount_zero : Decimal.readCount ['0'] = some 0 := by
  decide

theorem spellsNumber_zero : SpellsNumber ['0'] 0 :=
  ⟨.finite false 0 0, rfl, rfl, rfl⟩

/-- Zeros complete the words to those of a problem. -/
theorem BeginsProblem.exists_spellsProblem (begins : BeginsProblem words) :
    ∃ missing objective rows,
      SpellsProblem (words ++ List.replicate missing ['0']) objective rows := by
  have zeros {amount : Nat} : ∀ word ∈ List.replicate amount ['0'], ReadsNumber word := by
    intro word member
    exact List.eq_of_mem_replicate member ▸ ⟨0, spellsNumber_zero⟩
  simp only [exists_spellsProblem_iff]
  -- A zero also does for a count, and then no row or no column is asked for.
  cases begins with
  | nothing =>
      exact ⟨2, ['0'], ['0'], [], 0, 0, rfl, readCount_zero, readCount_zero, rfl, by simp⟩
  | @count first n isFirst =>
      refine ⟨n.toNat + 1, first, ['0'], List.replicate n.toNat ['0'], n, 0, ?_, isFirst,
        readCount_zero, ?_, zeros⟩
      · rw [List.replicate_succ]
        rfl
      · simp
        omega
  | @numbers first second numbers n m isFirst isSecond readable within =>
      refine ⟨m.toNat + n.toNat * (m.toNat + 1) - numbers.length, first, second, _, n, m, rfl,
        isFirst, isSecond, ?_, ?_⟩
      · simp
        omega
      · exact List.forall_mem_append.mpr ⟨readable, zeros⟩

end Words

section Texts

variable {text rest gap : List Char} {words others : List (List Char)}

/-- A text stops after one sequence of words only. -/
theorem StopsAfter.unique {last : List Char} (first : StopsAfter text words rest)
    (second : StopsAfter text others last) : others = words := by
  -- One goes on from the other; if by a word, then by one that the other refuses.
  rcases first.leads.comparable second.leads with ⟨more, rfl, goesOn⟩ | ⟨more, rfl, goesOn⟩
  · cases goesOn with
    | here => exact List.append_nil _
    | word split isGap isWord ends _ =>
        have oneMore := second.begins
        rw [List.append_cons] at oneMore
        exact absurd oneMore.of_append (first.refuses (.word split isGap isWord ends .here))
  · cases goesOn with
    | here => exact (List.append_nil _).symm
    | word split isGap isWord ends _ =>
        have oneMore := first.begins
        rw [List.append_cons] at oneMore
        exact absurd oneMore.of_append (second.refuses (.word split isGap isWord ends .here))

/-- Some zeros, each after a blank. -/
def zerosText (amount : Nat) : List Char :=
  (List.replicate amount [' ', '0']).flatten

theorem zerosText_succ (amount : Nat) :
    zerosText (amount + 1) = ' ' :: '0' :: zerosText amount := by
  rw [zerosText, List.replicate_succ, List.flatten_cons]
  rfl

theorem endsWord_zerosText (isGap : IsGap gap) (amount : Nat) :
    EndsWord (gap ++ zerosText amount) := by
  cases gap with
  | nil =>
      cases amount with
      | zero => simp [zerosText, EndsWord]
      | succ amount =>
          rw [zerosText_succ]
          rintro c ⟨⟩
          decide
  | cons c more => exact isGap.endsWord (List.cons_ne_nil c more)

theorem separated_zerosText (isGap : IsGap gap) (amount : Nat) :
    Separated (gap ++ zerosText amount) (List.replicate amount ['0']) := by
  induction amount generalizing gap with
  | zero => simpa [zerosText, Text.separated_nil_iff] using isGap
  | succ amount inductionHypothesis =>
      have nil : IsGap [] := by simp [IsGap]
      have blank : IsGap [' '] := by simp [IsGap, Text.isSeparator]
      rw [List.replicate_succ, Text.separated_cons_iff]
      refine ⟨gap ++ [' '], zerosText amount, by simp [zerosText_succ], ?_, ?_, ?_, ?_⟩
      · exact List.forall_mem_append.mpr ⟨isGap, blank⟩
      · exact ⟨by simp, by simp [Text.isWhiteSpace]⟩
      · exact endsWord_zerosText nil amount
      · exact inductionHypothesis nil

/-- What stands before the place where a text stops, with a gap behind it, goes on to a problem. -/
theorem BeginsProblem.exists_parse {passed : List Char} (begins : BeginsProblem words)
    (leads : Leads words (passed ++ rest) rest) (isGap : IsGap gap) :
    ∃ more problem, Problem.parse (.ofList (passed ++ gap ++ more)) = .ok problem := by
  obtain ⟨missing, objective, rows, spells⟩ := begins.exists_spellsProblem
  obtain ⟨front, split, elsewhere⟩ := leads.exists_passed
  obtain rfl : passed = front := List.append_cancel_right split
  have separated : Separated (passed ++ gap ++ zerosText missing)
      (words ++ List.replicate missing ['0']) := by
    rw [List.append_assoc]
    exact (elsewhere _ (endsWord_zerosText isGap missing)).separated_append
      (separated_zerosText isGap missing)
  refine ⟨zerosText missing, _, Problem.parse_eq_ok_iff.mpr ⟨_, objective, rows, ?_, spells, rfl⟩⟩
  rwa [String.toList_ofList]

end Texts

end TwoPhase
