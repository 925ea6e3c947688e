import TwoPhase.Proofs.Problem.Stopping

/-!
# What a malformed text reports

The trail of a refused text ends with the section that asks for the first word that could not be
read, and so does the message.  The place of its first mark is one up to which the text is the
beginning of a problem.
-/

namespace TwoPhase

open Text (Leads)

namespace Reader

variable {cursor middle place : Cursor} {trail : List Mark} {words : List (List Char)}

/-- Reading a problem fails after these words, in the section that asks for the next one. -/
structure FailsAfter (cursor : Cursor) (trail : List Mark) (words : List (List Char))
    (place : Cursor) (part : Section) : Prop where
  stops : StopsAfter cursor.rest words place.rest
  passes : ∃ passed, cursor.Passes passed place
  marks : place.Marks trail
  asks : Asks words part
  named : ∃ inner offset, trail = inner ++ [⟨offset, .inside part⟩]

section Sections

variable {first second word : List Char} {numbers : List (List Char)} {n m : UInt64}

theorem named_of_within {β : Type} {reader : Reader β} {part : Section}
    (failed : within part reader cursor = .error trail) :
    ∃ inner offset, trail = inner ++ [⟨offset, .inside part⟩] := by
  obtain ⟨inner, _, isTrail⟩ := within_eq_error_iff.mp failed
  exact ⟨inner, cursor.offset, isTrail⟩

theorem fails_constraintCount (failed : within .constraintCount count cursor = .error trail) :
    ∃ words place part, FailsAfter cursor trail words place part := by
  obtain ⟨words, place, short, stops⟩ := (covers_count.within _).stops failed
  obtain rfl := List.length_eq_zero_iff.mp (Nat.lt_one_iff.mp short)
  refine ⟨[], place, .constraintCount, ⟨stops.leadsTo.leads, .nothing, ?_⟩, stops.leadsTo.passes,
    stops.marks, .constraintCount, named_of_within failed⟩
  intro word after leads begins
  cases begins with
  | count isCount => exact stops.refuses leads ⟨_, isCount⟩

theorem fails_variableCount (isFirst : Decimal.readCount first = some n)
    (toMiddle : cursor.LeadsTo [first] middle)
    (failed : within .variableCount count middle = .error trail) :
    ∃ words place part, FailsAfter cursor trail words place part := by
  obtain ⟨words, place, short, stops⟩ := (covers_count.within _).stops failed
  obtain rfl := List.length_eq_zero_iff.mp (Nat.lt_one_iff.mp short)
  have leadsTo := toMiddle.append stops.leadsTo
  refine ⟨[first], place, .variableCount, ⟨leadsTo.leads, .count isFirst, ?_⟩, leadsTo.passes,
    stops.marks, .variableCount, named_of_within failed⟩
  intro word after leads begins
  cases begins with
  | numbers _ isSecond _ _ => exact stops.refuses leads ⟨_, isSecond⟩

/-- A word that is no number does not go on with a problem, nor does any behind the last number. -/
theorem not_beginsProblem_concat (isFirst : Decimal.readCount first = some n)
    (isSecond : Decimal.readCount second = some m)
    (refused : ReadsNumber word → m.toNat + n.toNat * (m.toNat + 1) ≤ numbers.length) :
    ¬ BeginsProblem (first :: second :: numbers ++ [word]) := by
  intro begins
  rw [List.cons_append, List.cons_append] at begins
  cases begins with
  | numbers isFirstToo isSecondToo readable within =>
      cases isFirst.symm.trans isFirstToo
      cases isSecond.symm.trans isSecondToo
      have tooMany := refused (readable word (by simp))
      rw [List.length_append, List.length_singleton] at within
      omega

section Counted

variable (isFirst : Decimal.readCount first = some n) (isSecond : Decimal.readCount second = some m)
  (toMiddle : cursor.LeadsTo (first :: second :: numbers) middle)
  (readable : ∀ word ∈ numbers, ReadsNumber word)

include isFirst isSecond toMiddle readable

/-- Where reading stops among the numbers, after fewer than the counts ask for. -/
theorem stopsAfter_of_numbers (stops : Stops ReadsNumber middle trail words place)
    (short : numbers.length + words.length < m.toNat + n.toNat * (m.toNat + 1)) :
    StopsAfter cursor.rest (first :: second :: (numbers ++ words)) place.rest where
  leads := (toMiddle.append stops.leadsTo).leads
  begins := .numbers isFirst isSecond (List.forall_mem_append.mpr ⟨readable, stops.allReadable⟩)
    (by rw [List.length_append]; exact short.le)
  refuses leads := by
    apply not_beginsProblem_concat isFirst isSecond
    intro isNumber
    exact absurd isNumber (stops.refuses leads)

theorem fails_rows (length : numbers.length = m.toNat)
    (failed : within .rows (times n.toNat (row m.toNat)) middle = .error trail) :
    ∃ words place part, FailsAfter cursor trail words place part := by
  obtain ⟨words, place, short, stops⟩ := (((covers_row _).times _).within _).stops failed
  have inAll : numbers.length + words.length < m.toNat + n.toNat * (m.toNat + 1) := by
    rw [length]
    omega
  refine ⟨_, place, .rows, stopsAfter_of_numbers isFirst isSecond toMiddle readable stops inAll,
    (toMiddle.append stops.leadsTo).passes, stops.marks,
    .rows isFirst isSecond ?_ ?_, named_of_within failed⟩
  · rw [List.length_append, length]
    exact Nat.le_add_right _ _
  · rwa [List.length_append]

theorem fails_ending (length : numbers.length = m.toNat + n.toNat * (m.toNat + 1))
    (failed : within .ending ending middle = .error trail) :
    ∃ words place part, FailsAfter cursor trail words place part := by
  obtain ⟨inner, ended, rfl⟩ := within_eq_error_iff.mp failed
  have marks : middle.Marks inner := by
    simp only [ending] at ended
    split at ended
    · cases ended
    · cases ended
      exact middle.marks_behind_gap _
  refine ⟨_, middle, .ending, ⟨toMiddle.leads, ?_, ?_⟩, toMiddle.passes, marks.append _,
    .ending isFirst isSecond length, _, _, rfl⟩
  · exact .numbers isFirst isSecond readable length.le
  · intro word after _
    exact not_beginsProblem_concat isFirst isSecond fun _ => length.ge

end Counted

theorem fails_objective (isFirst : Decimal.readCount first = some n)
    (isSecond : Decimal.readCount second = some m) (toMiddle : cursor.LeadsTo [first, second] middle)
    (failed : within .objective (times m.toNat number) middle = .error trail) :
    ∃ words place part, FailsAfter cursor trail words place part := by
  obtain ⟨words, place, short, stops⟩ := ((covers_number.times _).within _).stops failed
  rw [Nat.mul_one] at short
  have inAll : ([] : List (List Char)).length + words.length <
      m.toNat + n.toNat * (m.toNat + 1) := by
    rw [List.length_nil, Nat.zero_add]
    omega
  exact ⟨_, place, .objective, stopsAfter_of_numbers isFirst isSecond toMiddle (by simp) stops inAll,
    (toMiddle.append stops.leadsTo).passes, stops.marks, .objective isFirst isSecond short,
    named_of_within failed⟩

end Sections

theorem bind_eq_error_iff {ε β γ : Type} {first : Except ε β} {next : β → Except ε γ}
    {failure : ε} :
    first >>= next = .error failure ↔
      first = .error failure ∨ ∃ value, first = .ok value ∧ next value = .error failure := by
  cases first with
  | error other =>
      change Except.error other = .error failure ↔ _
      simp
  | ok value =>
      change next value = .error failure ↔ _
      simp

theorem leadsTo_of_count {part : Section} {n : UInt64}
    (read : within part count cursor = .ok (n, middle)) :
    ∃ word, Decimal.readCount word = some n ∧ cursor.LeadsTo [word] middle := by
  obtain ⟨_, ⟨word, rfl, isCount⟩, leads⟩ := (reads_count.within _).sound read
  obtain ⟨_, _, _, leadsTo⟩ := (covers_count.within _).passes read
  exact ⟨word, isCount, leads, leadsTo.passes⟩

/-- Section by section: what is read before the failure leads to the place where that section
starts. -/
theorem problem_fails (failed : problem cursor = .error trail) :
    ∃ words place part, FailsAfter cursor trail words place part := by
  simp only [problem, bind_eq_error_iff] at failed
  rcases failed with failed | ⟨⟨n, afterFirst⟩, readFirst, failed⟩
  · exact fails_constraintCount failed
  obtain ⟨first, isFirst, toSecond⟩ := leadsTo_of_count readFirst
  rcases failed with failed | ⟨⟨m, afterSecond⟩, readSecond, failed⟩
  · exact fails_variableCount isFirst toSecond failed
  obtain ⟨second, isSecond, pastSecond⟩ := leadsTo_of_count readSecond
  have toObjective : cursor.LeadsTo [first, second] afterSecond := toSecond.append pastSecond
  rcases failed with failed | ⟨⟨objective, afterObjective⟩, readObjective, failed⟩
  · exact fails_objective isFirst isSecond toObjective failed
  obtain ⟨front, lengthFront, readableFront, pastObjective⟩ :=
    ((covers_number.times _).within _).passes readObjective
  rw [Nat.mul_one] at lengthFront
  have toRows : cursor.LeadsTo (first :: second :: front) afterObjective :=
    toObjective.append pastObjective
  rcases failed with failed | ⟨⟨rows, afterRows⟩, readRows, failed⟩
  · exact fails_rows isFirst isSecond toRows readableFront lengthFront failed
  obtain ⟨back, lengthBack, readableBack, pastRows⟩ :=
    (((covers_row _).times _).within _).passes readRows
  have toEnding : cursor.LeadsTo (first :: second :: (front ++ back)) afterRows :=
    toRows.append pastRows
  rcases failed with failed | ⟨_, _, succeeded⟩
  · apply fails_ending isFirst isSecond toEnding _ _ failed
    · exact List.forall_mem_append.mpr ⟨readableFront, readableBack⟩
    · rw [List.length_append, lengthFront, lengthBack]
  · cases succeeded

end Reader

/-- The title says in which section the word after these stands, by how many they are and by the
counts that the first two read as. -/
structure TitlesNext (words : List (List Char)) (title : String) : Prop where
  constraintCount : words.length = 0 → title = "constraint count"
  variableCount : words.length = 1 → title = "variable count"
  objective {first second : List Char} {numbers : List (List Char)} {n m : UInt64} :
    words = first :: second :: numbers → Decimal.readCount first = some n →
      Decimal.readCount second = some m → words.length < 2 + m.toNat →
        title = "objective coefficients"
  rows {first second : List Char} {numbers : List (List Char)} {n m : UInt64} :
    words = first :: second :: numbers → Decimal.readCount first = some n →
      Decimal.readCount second = some m → 2 + m.toNat ≤ words.length →
        words.length < 2 + m.toNat + n.toNat * (m.toNat + 1) → title = "constraint rows"
  ending {first second : List Char} {numbers : List (List Char)} {n m : UInt64} :
    words = first :: second :: numbers → Decimal.readCount first = some n →
      Decimal.readCount second = some m →
        words.length = 2 + m.toNat + n.toNat * (m.toNat + 1) → title = "end of input"

theorem Asks.titlesNext {words : List (List Char)} {part : Section} (asks : Asks words part) :
    TitlesNext words part.title := by
  cases asks with
  | constraintCount => constructor <;> simp [Section.title]
  | variableCount => constructor <;> simp [Section.title]
  | objective isFirst isSecond few =>
      constructor
      all_goals grind [Section.title]
  | rows isFirst isSecond many few =>
      constructor
      all_goals grind [Section.title]
  | ending isFirst isSecond all =>
      constructor
      all_goals grind [Section.title]

/-- An item of a report shows a title: behind its number and, unless the text is empty, behind the
number of a line, of which a view follows. -/
inductive ShowsTitle (index : Nat) (title : String) : String → Prop
  | line (number : Nat) (view : String) :
      ShowsTitle index title (s!"{index}: at line {number}, in " ++ title ++ ":\n" ++ view)
  | empty : ShowsTitle index title (s!"{index}: in " ++ title ++ ", got empty input\n\n")

theorem Mark.showsTitle_describe (text : List Char) (index : Nat) (mark : Mark) :
    ShowsTitle index mark.label.title (mark.describe text index) := by
  unfold describe
  split
  · exact .empty
  · dsimp only
    generalize LineView.locate text mark.offset = line
    have shown : ShowsTitle index mark.label.title _ :=
      .line line.number (String.ofList (Text.trimEnd line.characters) ++ "\n" ++
        String.ofList (List.replicate line.before ' ') ++ "^\n\n")
    simpa only [String.append_assoc] using shown

theorem describeTrail_concat (text : String) (inner : List Mark) (last : Mark) :
    describeTrail text (inner ++ [last]) =
      describeTrail text inner ++ last.describe text.toList inner.length := by
  simp [describeTrail, List.zipIdx_append, String.join_append]

namespace Problem

variable {text : String}

/-- What is in front of the innermost mark is the beginning of a text that is a problem. -/
theorem exists_parse_of_failsAfter {trail : List Mark} {words : List (List Char)} {place : Cursor}
    {part : Section} (fails : Reader.FailsAfter (.start text) trail words place part) :
    ∃ first, trail.head? = some first ∧ ∃ front back, text = front ++ back ∧
      front.utf8ByteSize = first.offset ∧
      ∃ more problem, parse (front ++ more) = .ok problem := by
  obtain ⟨passed, toPlace, placed⟩ := fails.passes
  obtain ⟨first, gap, behind, isFirst, onward, isGap, offset⟩ := fails.marks
  have split : text.toList = passed ++ place.rest := toPlace
  have leads : Leads words (passed ++ place.rest) place.rest := split ▸ fails.stops.leads
  refine ⟨first, isFirst, .ofList (passed ++ gap), .ofList behind, ?_, ?_, ?_⟩
  · rw [← String.ofList_append, List.append_assoc, ← onward, ← split, String.ofList_toList]
  · rw [Cursor.utf8ByteSize_ofList, Cursor.width_append, offset, placed]
    exact congrArg (· + Cursor.width gap) (Nat.zero_add _).symm
  · obtain ⟨more, problem, parsed⟩ := fails.stops.begins.exists_parse leads isGap
    exact ⟨.ofList more, problem, by rwa [← String.ofList_append]⟩

/-- The last item of a refused text's message shows the section of the first word that could not be
read, and its first item is at a place up to which the text is the beginning of a problem. -/
theorem refusal_names_section_and_place {error : ProblemError}
    (refused : parse text = .error error) :
    ∃ trail inner first last words, error = .malformed text trail ∧
      trail.head? = some first ∧ trail = inner ++ [last] ∧
      error.message = "malformed input: " ++
        (describeTrail text inner ++ last.describe text.toList inner.length) ∧
      ShowsTitle inner.length last.label.title (last.describe text.toList inner.length) ∧
      (∀ others, (∃ rest, StopsAfter text.toList others rest) ↔ others = words) ∧
      TitlesNext words last.label.title ∧
      ∃ front back, text = front ++ back ∧ front.utf8ByteSize = first.offset ∧
        ∃ more problem, parse (front ++ more) = .ok problem := by
  obtain ⟨trail, failed, rfl⟩ := parse_eq_error_iff.mp refused
  obtain ⟨words, place, part, fails⟩ := Reader.problem_fails failed
  obtain ⟨inner, offset, rfl⟩ := fails.named
  obtain ⟨first, isFirst, begun⟩ := exists_parse_of_failsAfter fails
  refine ⟨_, inner, first, _, words, rfl, isFirst, rfl, ?_, Mark.showsTitle_describe _ _ _, ?_,
    fails.asks.titlesNext, begun⟩
  · exact congrArg ("malformed input: " ++ ·) (describeTrail_concat _ _ _)
  · intro others
    constructor
    · rintro ⟨_, stops⟩
      exact fails.stops.unique stops
    · rintro rfl
      exact ⟨place.rest, fails.stops⟩

/-- A row whose second number is behind a no-break space, at which no word can start. -/
def cutRow : String :=
  "1 2\n1 1\n1\u00a01 5"

def cutRowTrail : List Mark :=
  [⟨9, .noToken⟩, ⟨9, .inside .number⟩, ⟨7, .repetition⟩, ⟨7, .repetition⟩, ⟨7, .inside .rows⟩]

theorem refusal_of_cutRow :
    parse cutRow = .error (.malformed cutRow cutRowTrail) ∧
      (∃ earlier item, ProblemError.message (.malformed cutRow cutRowTrail) =
          "malformed input: " ++ (earlier ++ item) ∧ ShowsTitle 4 "constraint rows" item) ∧
      (∃ words, (∀ others, (∃ rest, StopsAfter cutRow.toList others rest) ↔ others = words) ∧
        TitlesNext words "constraint rows") ∧
      ∃ front back, cutRow = front ++ back ∧ front.utf8ByteSize = 9 ∧
        ∃ more problem, parse (front ++ more) = .ok problem := by
  have refused : parse cutRow = .error (.malformed cutRow cutRowTrail) := by
    -- Only the trail is compared, since equality of what is read is not decidable.
    have failure : (match Reader.problem (.start cutRow) with
        | .error trail => some trail
        | .ok _ => none) = some cutRowTrail := by decide +kernel
    refine parse_eq_error_iff.mpr ⟨cutRowTrail, ?_, rfl⟩
    generalize Reader.problem (.start cutRow) = outcome at failure ⊢
    cases outcome with
    | error trail => exact congrArg Except.error (Option.some.inj failure)
    | ok result => cases failure
  obtain ⟨trail, inner, first, last, words, same, isFirst, isTrail, message, shows, stops, titles,
    begun⟩ := refusal_names_section_and_place refused
  cases same
  cases isFirst
  obtain rfl : last = ⟨7, .inside .rows⟩ := by
    have lasts := congrArg List.getLast? isTrail
    rw [List.getLast?_concat] at lasts
    exact (Option.some.inj lasts).symm
  have isFifth : inner.length = 4 := by
    have lengths := congrArg List.length isTrail
    rw [List.length_append] at lengths
    exact (Nat.succ.inj lengths).symm
  exact ⟨refused, ⟨_, _, message, isFifth ▸ shows⟩, ⟨words, stops, titles⟩, begun⟩

end Problem

end TwoPhase
