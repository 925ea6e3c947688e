import TwoPhase.Problem.Reader
import TwoPhase.Proofs.Problem.Spelling
import TwoPhase.Proofs.Text.Words

/-!
# The texts that are problems

Each reader accepts exactly the sequences of words of a language, at the front of any text, and the
words tell its value.  A text is a problem if two counts and as many finite numbers as they ask for
are its words; what is read from it always makes a problem, so a refused text is a malformed one.
-/

namespace TwoPhase

open Text (IsWord IsGap Leads Separated)
open Problem (bind_eq_ok_iff dense ofDense rowValues)

namespace Reader

variable {β : Type}

/-- The reader accepts exactly the words of the language, wherever they stand, and its value is one
that they spell. -/
structure Reads (reader : Reader β) (language : List (List Char) → β → Prop) : Prop where
  sound {cursor after : Cursor} {value : β} : reader cursor = .ok (value, after) →
    ∃ words, language words value ∧ Leads words cursor.rest after.rest
  complete (cursor : Cursor) {words : List (List Char)} {value : β} {rest : List Char} :
    language words value → Leads words cursor.rest rest →
      ∃ offset, reader cursor = .ok (value, ⟨offset, rest⟩)

theorem within_eq_ok_iff {part : Section} {reader : Reader β} {cursor : Cursor}
    {result : β × Cursor} :
    within part reader cursor = .ok result ↔ reader cursor = .ok result := by
  unfold within
  cases reader cursor <;> simp

theorem Reads.within {reader : Reader β} {language : List (List Char) → β → Prop}
    (reads : Reads reader language) (part : Section) : Reads (within part reader) language where
  sound read := reads.sound (within_eq_ok_iff.mp read)
  complete cursor words value rest spelled leads := by
    obtain ⟨offset, read⟩ := reads.complete cursor spelled leads
    exact ⟨offset, within_eq_ok_iff.mpr read⟩

section Words

theorem reads_token : Reads token fun words word => words = [word] where
  sound {cursor after word} read := by
    simp only [token] at read
    split at read
    · cases read
    · next nonempty =>
        cases read
        refine ⟨_, rfl, .word ?_ (Text.isGap_takeWhile cursor.rest) ⟨nonempty, ?_⟩
          (Text.endsWord_dropWhile _) .here⟩
        · simp only [Cursor.skip, List.takeWhile_append_dropWhile]
        · intro c member
          simpa using List.mem_takeWhile_imp member
  complete cursor words word rest := by
    rintro rfl (_ | ⟨split, isGap, isWord, ends, _ | _⟩)
    have skipped : (cursor.skip Text.isSeparator).rest = word ++ rest := by
      rw [Cursor.skip, split, isGap.dropWhile_append isWord]
    have passed : ((cursor.skip Text.isSeparator).skip fun c => !Text.isWhiteSpace c).rest = rest := by
      rw [Cursor.skip, skipped, isWord.dropWhile_append ends]
    obtain ⟨c, more, rfl⟩ := List.exists_cons_of_ne_nil isWord.1
    simp only [token, skipped, isWord.takeWhile_append ends]
    exact ⟨((cursor.skip Text.isSeparator).skip fun c => !Text.isWhiteSpace c).offset,
      by rw [← passed]⟩

theorem reads_count :
    Reads count fun words value =>
      ∃ word, words = [word] ∧ Decimal.readCount word = some value where
  sound {cursor after value} read := by
    unfold count at read
    split at read
    · cases read
    · next word place token =>
        split at read
        · cases read
        · next value isCount =>
            cases read
            obtain ⟨words, isWord, leads⟩ := reads_token.sound token
            exact ⟨words, ⟨word, isWord, isCount⟩, leads⟩
  complete cursor words value rest := by
    rintro ⟨word, isWord, isCount⟩ leads
    obtain ⟨offset, token⟩ := reads_token.complete cursor isWord leads
    exact ⟨offset, by simp only [count, token, isCount]⟩

/-- The numbers of an item stand in the text in order, and a law holds of it. -/
def Item (numbers : β → List Float) (law : β → Prop) (words : List (List Char)) (item : β) : Prop :=
  Spell words (numbers item) ∧ law item

theorem reads_number : Reads number (Item (fun value => [value]) fun _ => True) := by
  apply Reads.within
  constructor
  · intro cursor after value read
    split at read
    · cases read
    · next word place token =>
        split at read
        · cases read
        · next number isNumber =>
            split at read
            · next finite =>
                cases read
                obtain ⟨words, isWord, leads⟩ := reads_token.sound token
                have spell := spell_singleton_iff.mpr ⟨word, isWord, number, isNumber, finite, rfl⟩
                exact ⟨words, ⟨spell, trivial⟩, leads⟩
            · cases read
  · rintro cursor words value rest ⟨spell, _⟩ leads
    obtain ⟨word, isWord, number, isNumber, finite, rfl⟩ := spell_singleton_iff.mp spell
    obtain ⟨offset, token⟩ := reads_token.complete cursor isWord leads
    exact ⟨offset, by simp only [token, isNumber, finite, if_true]⟩

end Words

section Repetition

variable {reader : Reader β} {numbers : β → List Float} {law : β → Prop}

theorem timesFrom_sound (reads : Reads reader (Item numbers law)) {origin remaining : Nat}
    {items all : Array β} {cursor after : Cursor}
    (read : timesFrom reader origin remaining items cursor = .ok (all, after)) :
    ∃ more words, all.toList = items.toList ++ more ∧ more.length = remaining ∧
      Spell words (more.flatMap numbers) ∧ (∀ item ∈ more, law item) ∧
      Leads words cursor.rest after.rest := by
  induction remaining generalizing items cursor with
  | zero =>
      cases read
      exact ⟨[], [], by simp, rfl, .nil, by simp, .here⟩
  | succ remaining inductionHypothesis =>
      unfold timesFrom at read
      split at read
      · cases read
      · next item place first =>
          obtain ⟨front, ⟨spellFront, lawful⟩, toPlace⟩ := reads.sound first
          obtain ⟨more, back, isAll, length, spellBack, allLawful, fromPlace⟩ :=
            inductionHypothesis read
          refine ⟨item :: more, front ++ back, ?_, by simp [length], ?_, ?_, ?_⟩
          · simpa using isAll
          · exact spell_append_iff.mpr ⟨front, back, rfl, spellFront, spellBack⟩
          · exact List.forall_mem_cons.mpr ⟨lawful, allLawful⟩
          · exact Text.leads_append_iff.mpr ⟨_, toPlace, fromPlace⟩

theorem timesFrom_complete (reads : Reads reader (Item numbers law)) {origin : Nat}
    {more : List β} (items : Array β) (cursor : Cursor) {words : List (List Char)}
    {rest : List Char} (spell : Spell words (more.flatMap numbers)) (lawful : ∀ item ∈ more, law item)
    (leads : Leads words cursor.rest rest) :
    ∃ offset, timesFrom reader origin more.length items cursor =
      .ok (items ++ more.toArray, ⟨offset, rest⟩) := by
  induction more generalizing items cursor words with
  | nil =>
      cases spell
      obtain rfl := Text.leads_nil_iff.mp leads
      exact ⟨cursor.offset, by simp [timesFrom]⟩
  | cons item more inductionHypothesis =>
      obtain ⟨front, back, rfl, spellFront, spellBack⟩ := spell_append_iff.mp spell
      obtain ⟨middle, toMiddle, fromMiddle⟩ := Text.leads_append_iff.mp leads
      rw [List.forall_mem_cons] at lawful
      obtain ⟨place, first⟩ := reads.complete cursor ⟨spellFront, lawful.1⟩ toMiddle
      obtain ⟨offset, others⟩ := inductionHypothesis (items.push item) ⟨place, middle⟩ spellBack
        lawful.2 fromMiddle
      exact ⟨offset, by simp only [List.length_cons, timesFrom, first]; simpa using others⟩

theorem Reads.times (reads : Reads reader (Item numbers law)) (amount : Nat) :
    Reads (times amount reader)
      (Item (fun items => items.toList.flatMap numbers)
        fun items => items.size = amount ∧ ∀ item ∈ items.toList, law item) where
  sound {cursor after items} read := by
    obtain ⟨more, words, isMore, length, spell, lawful, leads⟩ := timesFrom_sound reads read
    obtain rfl : items.toList = more := isMore
    exact ⟨words, ⟨spell, length, lawful⟩, leads⟩
  complete cursor words items rest := by
    rintro ⟨spell, rfl, lawful⟩ leads
    obtain ⟨offset, read⟩ := timesFrom_complete reads #[] cursor spell lawful leads
    exact ⟨offset, by simpa [Reader.times] using read⟩

end Repetition

section Problem

theorem reads_numbers (m : Nat) :
    Reads (times m number) (Item Array.toList fun values => values.size = m) := by
  simpa using reads_number.times m

/-- A row with its coefficients as a list. -/
def listed (row : Array Float × Float) : List Float × Float :=
  (row.1.toList, row.2)

theorem reads_row (m : Nat) :
    Reads (row m) (Item (fun row => rowValues (listed row)) fun row => row.1.size = m) where
  sound {cursor after value} read := by
    unfold row at read
    split at read
    · cases read
    · next coefficients place first =>
        split at read
        · cases read
        · next rhs place last =>
            cases read
            obtain ⟨front, ⟨spellFront, size⟩, toPlace⟩ := (reads_numbers m).sound first
            obtain ⟨back, ⟨spellBack, _⟩, fromPlace⟩ := (reads_number.within .rhs).sound last
            exact ⟨front ++ back, ⟨spell_append_iff.mpr ⟨_, _, rfl, spellFront, spellBack⟩, size⟩,
              Text.leads_append_iff.mpr ⟨_, toPlace, fromPlace⟩⟩
  complete cursor words value rest := by
    rintro ⟨spell, size⟩ leads
    obtain ⟨front, back, rfl, spellFront, spellBack⟩ := spell_append_iff.mp spell
    obtain ⟨middle, toMiddle, fromMiddle⟩ := Text.leads_append_iff.mp leads
    obtain ⟨place, first⟩ := (reads_numbers m).complete cursor ⟨spellFront, size⟩ toMiddle
    obtain ⟨offset, last⟩ :=
      (reads_number.within .rhs).complete ⟨place, middle⟩ ⟨spellBack, trivial⟩ fromMiddle
    exact ⟨offset, by simp only [row, first, last]; rfl⟩

theorem ending_eq_ok_iff (cursor : Cursor) :
    (∃ after, ending cursor = .ok ((), after)) ↔ IsGap cursor.rest := by
  have endsIff : (cursor.skip Text.isSeparator).rest = [] ↔ IsGap cursor.rest :=
    List.dropWhile_eq_nil_iff
  simp only [ending]
  rw [← endsIff]
  cases (cursor.skip Text.isSeparator).rest <;> simp

theorem problem_sound {cursor after : Cursor} {objective : Array Float}
    {rows : Array (Array Float × Float)}
    (read : problem cursor = .ok ((objective, rows), after)) :
    ∃ words, SpellsProblem words objective.toList (rows.toList.map listed) ∧
      Separated cursor.rest words := by
  simp only [problem, bind_eq_ok_iff] at read
  obtain ⟨⟨n, afterFirst⟩, readFirst, ⟨m, afterSecond⟩, readSecond,
    ⟨objective, afterObjective⟩, readObjective, ⟨rows, afterRows⟩, readRows,
    ⟨_, afterEnding⟩, readEnding, isValue⟩ := read
  cases isValue
  obtain ⟨_, ⟨first, rfl, isFirst⟩, leadsFirst⟩ := (reads_count.within _).sound readFirst
  obtain ⟨_, ⟨second, rfl, isSecond⟩, leadsSecond⟩ := (reads_count.within _).sound readSecond
  obtain ⟨front, ⟨spellFront, size⟩, leadsObjective⟩ :=
    ((reads_numbers m.toNat).within _).sound readObjective
  obtain ⟨back, ⟨spellBack, amount, sizes⟩, leadsRows⟩ :=
    (((reads_row m.toNat).times n.toNat).within _).sound readRows
  have spell :
      Spell (front ++ back) (objective.toList ++ (rows.toList.map listed).flatMap rowValues) := by
    rw [List.flatMap_map]
    exact spell_append_iff.mpr ⟨front, back, rfl, spellFront, spellBack⟩
  refine ⟨[first] ++ ([second] ++ (front ++ back)), ⟨first, second, front ++ back, n, m, rfl,
    isFirst, isSecond, spell, by simpa using size, by simpa using amount, ?_⟩, ?_⟩
  · exact List.forall_mem_map.mpr sizes
  · refine Text.separated_iff_leads.mpr ⟨afterRows.rest, ?_, ?_⟩
    · simp only [Text.leads_append_iff]
      exact ⟨_, leadsFirst, _, leadsSecond, _, leadsObjective, leadsRows⟩
    · exact (ending_eq_ok_iff _).mp ⟨_, within_eq_ok_iff.mp readEnding⟩

theorem problem_complete (cursor : Cursor) {words : List (List Char)} {objective : Array Float}
    {rows : Array (Array Float × Float)}
    (spells : SpellsProblem words objective.toList (rows.toList.map listed))
    (separated : Separated cursor.rest words) :
    ∃ after, problem cursor = .ok ((objective, rows), after) := by
  obtain ⟨first, second, rest, n, m, rfl, isFirst, isSecond, spell, size, amount, sizes⟩ := spells
  obtain ⟨front, back, rfl, spellFront, spellBack⟩ := spell_append_iff.mp spell
  rw [List.flatMap_map] at spellBack
  rw [Array.length_toList] at size
  rw [List.length_map, Array.length_toList] at amount
  rw [List.forall_mem_map] at sizes
  obtain ⟨last, leads, lastGap⟩ := Text.separated_iff_leads.mp separated
  change Leads ([first] ++ ([second] ++ (front ++ back))) cursor.rest last at leads
  simp only [Text.leads_append_iff] at leads
  obtain ⟨_, leadsFirst, _, leadsSecond, _, leadsObjective, leadsRows⟩ := leads
  obtain ⟨_, readFirst⟩ :=
    (reads_count.within .constraintCount).complete cursor ⟨first, rfl, isFirst⟩ leadsFirst
  obtain ⟨_, readSecond⟩ :=
    (reads_count.within .variableCount).complete ⟨_, _⟩ ⟨second, rfl, isSecond⟩ leadsSecond
  obtain ⟨_, readObjective⟩ :=
    ((reads_numbers m.toNat).within .objective).complete ⟨_, _⟩ ⟨spellFront, size⟩ leadsObjective
  obtain ⟨offset, readRows⟩ :=
    (((reads_row m.toNat).times n.toNat).within .rows).complete ⟨_, _⟩ ⟨spellBack, amount, sizes⟩
      leadsRows
  obtain ⟨after, readEnding⟩ := (ending_eq_ok_iff ⟨offset, last⟩).mpr lastGap
  refine ⟨after, ?_⟩
  simp only [problem, bind_eq_ok_iff]
  exact ⟨_, readFirst, _, readSecond, _, readObjective, _, readRows, _,
    within_eq_ok_iff.mpr readEnding, rfl⟩

end Problem

end Reader

namespace Problem

variable {text : String} {problem : Problem Float}

theorem parse_of_read {objective : Array Float} {rows : Array (Array Float × Float)}
    {after : Cursor} (read : Reader.problem (.start text) = .ok ((objective, rows), after)) :
    parse text = .ok (dense objective.toList (rows.toList.map Reader.listed)) := by
  obtain ⟨words, spells, _⟩ := Reader.problem_sound read
  unfold parse
  rw [read]
  change (ofDense objective.toList (rows.toList.map Reader.listed)).mapError _ = _
  rw [spells.ofDense_eq]
  rfl

theorem parse_eq_ok_iff :
    parse text = .ok problem ↔ ∃ words objective rows, Separated text.toList words ∧
      SpellsProblem words objective rows ∧ problem = dense objective rows := by
  constructor
  · intro parsed
    cases read : Reader.problem (.start text) with
    | error trail =>
        rw [parse, read] at parsed
        cases parsed
    | ok result =>
        obtain ⟨⟨objective, rows⟩, after⟩ := result
        rw [parse_of_read read] at parsed
        obtain ⟨words, spells, separated⟩ := Reader.problem_sound read
        exact ⟨words, _, _, separated, spells, (Except.ok.inj parsed).symm⟩
  · rintro ⟨words, objective, rows, separated, spells, rfl⟩
    have isRows : (rows.map fun row => (row.1.toArray, row.2)).toArray.toList.map Reader.listed =
        rows := by
      simp [Function.comp_def, Reader.listed]
    rw [← isRows] at spells
    obtain ⟨after, read⟩ :=
      Reader.problem_complete (.start text) (spells : SpellsProblem _ objective.toArray.toList _)
        separated
    rw [parse_of_read read, isRows]

/-- A text that is refused could not be read: the numbers of any other one make a problem. -/
theorem parse_eq_error_iff {error : ProblemError} :
    parse text = .error error ↔
      ∃ trail, Reader.problem (.start text) = .error trail ∧ error = .malformed text trail := by
  constructor
  · intro refused
    cases read : Reader.problem (.start text) with
    | error trail =>
        rw [parse, read] at refused
        exact ⟨trail, rfl, (Except.error.inj refused).symm⟩
    | ok result =>
        obtain ⟨⟨objective, rows⟩, after⟩ := result
        rw [parse_of_read read] at refused
        cases refused
  · rintro ⟨trail, failed, rfl⟩
    rw [parse, failed]

theorem malformed_of_parse_eq_error {error : ProblemError} (refused : parse text = .error error) :
    ∃ trail, error = .malformed text trail := by
  obtain ⟨trail, _, isMalformed⟩ := parse_eq_error_iff.mp refused
  exact ⟨trail, isMalformed⟩

/-- A text is a problem exactly if its words are two counts and as many finite numbers as they ask
for.  The problem has these numbers, in order, in unnamed variables and in constraints on all of
them, and every other text is malformed. -/
theorem parse_accepts_exactly (text : String) :
    ((∃ problem, parse text = .ok problem) ↔
      ∃ words first second rest n m, Separated text.toList words ∧
        words = first :: second :: rest ∧
        Decimal.readCount first = some n ∧ Decimal.readCount second = some m ∧
        words.length = 2 + m.toNat + n.toNat * (m.toNat + 1) ∧
        ∀ word ∈ rest, ∃ value, SpellsNumber word value) ∧
      (∀ problem, parse text = .ok problem ↔ ∃ words objective rows,
        Separated text.toList words ∧ SpellsProblem words objective rows ∧
        problem = dense objective rows) ∧
      ∀ error, parse text = .error error → ∃ trail, error = .malformed text trail := by
  refine ⟨?_, fun problem => parse_eq_ok_iff, fun error => malformed_of_parse_eq_error⟩
  simp only [parse_eq_ok_iff]
  constructor
  · rintro ⟨_, words, objective, rows, separated, spells, _⟩
    obtain ⟨first, second, rest, n, m, readable⟩ :=
      exists_spellsProblem_iff.mp ⟨objective, rows, spells⟩
    exact ⟨words, first, second, rest, n, m, separated, readable⟩
  · rintro ⟨words, first, second, rest, n, m, separated, readable⟩
    obtain ⟨objective, rows, spells⟩ :=
      exists_spellsProblem_iff.mpr ⟨first, second, rest, n, m, readable⟩
    exact ⟨_, words, objective, rows, separated, spells, rfl⟩

/-- A no-break space ends a word, and is in no gap. -/
example : (parse "0 0").toOption.isSome = true ∧ (parse "0\u00a00").toOption.isSome = false := by
  decide +kernel

end Problem

end TwoPhase
