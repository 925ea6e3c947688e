import TwoPhase.Proofs.Problem.Beginning

/-!
# Where reading stops

A reader of some amount of words passes that many readable words, or it stops after fewer, at a word
that is not readable.  Its innermost mark then stands behind the words that it passed or behind the
gap after them, and its outermost mark names the section that asks for the next word.
-/

namespace TwoPhase

open Text (IsGap Leads)

namespace Cursor

@[simp] theorem width_nil : width [] = 0 := rfl

@[simp] theorem width_cons (c : Char) (characters : List Char) :
    width (c :: characters) = c.utf8Size + width characters := rfl

theorem width_append (front back : List Char) : width (front ++ back) = width front + width back := by
  induction front with
  | nil => simp
  | cons c front inductionHypothesis => simp [inductionHypothesis, Nat.add_assoc]

theorem utf8ByteSize_ofList (characters : List Char) :
    (String.ofList characters).utf8ByteSize = width characters := by
  induction characters with
  | nil => rfl
  | cons c characters inductionHypothesis =>
      rw [String.ofList_cons, String.utf8ByteSize_append, inductionHypothesis,
        String.utf8ByteSize_singleton, width_cons]

/-- Going past these characters leads from one place of a text to another. -/
structure Passes (start : Cursor) (passed : List Char) (place : Cursor) : Prop where
  rest : start.rest = passed ++ place.rest
  offset : place.offset = start.offset + width passed

theorem passes_skip (cursor : Cursor) (p : Char → Bool) :
    cursor.Passes (cursor.rest.takeWhile p) (cursor.skip p) :=
  ⟨List.takeWhile_append_dropWhile.symm, rfl⟩

theorem Passes.append {start middle place : Cursor} {front back : List Char}
    (first : start.Passes front middle) (second : middle.Passes back place) :
    start.Passes (front ++ back) place where
  rest := by rw [first.rest, second.rest, List.append_assoc]
  offset := by rw [second.offset, first.offset, width_append, Nat.add_assoc]

/-- Reading these words leads from one place of a text to another. -/
structure LeadsTo (start : Cursor) (words : List (List Char)) (place : Cursor) : Prop where
  leads : Leads words start.rest place.rest
  passes : ∃ passed, start.Passes passed place

theorem leadsTo_self (cursor : Cursor) : cursor.LeadsTo [] cursor :=
  ⟨.here, [], rfl, rfl⟩

theorem LeadsTo.append {start middle place : Cursor} {front back : List (List Char)}
    (first : start.LeadsTo front middle) (second : middle.LeadsTo back place) :
    start.LeadsTo (front ++ back) place := by
  obtain ⟨passed, passesFirst⟩ := first.passes
  obtain ⟨passedThen, passesSecond⟩ := second.passes
  exact ⟨Text.leads_append_iff.mpr ⟨_, first.leads, second.leads⟩, _,
    passesFirst.append passesSecond⟩

/-- The innermost mark of the trail stands here or behind a gap from here. -/
def Marks (place : Cursor) (trail : List Mark) : Prop :=
  ∃ mark gap behind, trail.head? = some mark ∧ place.rest = gap ++ behind ∧ IsGap gap ∧
    mark.offset = place.offset + width gap

theorem marks_here (place : Cursor) (label : MarkLabel) : place.Marks [⟨place.offset, label⟩] :=
  ⟨_, [], place.rest, rfl, rfl, by simp [IsGap], rfl⟩

theorem marks_behind_gap (place : Cursor) (label : MarkLabel) :
    place.Marks [⟨(place.skip Text.isSeparator).offset, label⟩] := by
  have passes := place.passes_skip Text.isSeparator
  exact ⟨_, _, _, rfl, passes.rest, Text.isGap_takeWhile _, passes.offset⟩

theorem Marks.append {place : Cursor} {trail : List Mark} (marks : place.Marks trail)
    (outer : List Mark) : place.Marks (trail ++ outer) := by
  obtain ⟨mark, gap, behind, isFirst, rest⟩ := marks
  exact ⟨mark, gap, behind, by rw [List.head?_append, isFirst]; rfl, rest⟩

end Cursor

namespace Reader

variable {β : Type}

/-- Reading from the cursor stops after these readable words, at this place: no readable word
follows, and the trail marks the place. -/
structure Stops (readable : List Char → Prop) (cursor : Cursor) (trail : List Mark)
    (words : List (List Char)) (place : Cursor) : Prop where
  leadsTo : cursor.LeadsTo words place
  allReadable : ∀ word ∈ words, readable word
  refuses {word after : List Char} : Leads [word] place.rest after → ¬ readable word
  marks : place.Marks trail

/-- The reader passes this many readable words or stops after fewer. -/
structure Covers (readable : List Char → Prop) (size : Nat) (reader : Reader β) : Prop where
  passes {cursor after : Cursor} {value : β} : reader cursor = .ok (value, after) →
    ∃ words, words.length = size ∧ (∀ word ∈ words, readable word) ∧ cursor.LeadsTo words after
  stops {cursor : Cursor} {trail : List Mark} : reader cursor = .error trail →
    ∃ words place, words.length < size ∧ Stops readable cursor trail words place

variable {readable : List Char → Prop} {size : Nat} {reader : Reader β}

section Stops

variable {cursor middle place : Cursor} {trail : List Mark} {words front : List (List Char)}

theorem Stops.append_marks (stops : Stops readable cursor trail words place) (outer : List Mark) :
    Stops readable cursor (trail ++ outer) words place :=
  { stops with marks := stops.marks.append outer }

theorem Stops.after (stops : Stops readable middle trail words place)
    (leadsTo : cursor.LeadsTo front middle) (readableFront : ∀ word ∈ front, readable word) :
    Stops readable cursor trail (front ++ words) place where
  leadsTo := leadsTo.append stops.leadsTo
  allReadable := List.forall_mem_append.mpr ⟨readableFront, stops.allReadable⟩
  refuses := stops.refuses
  marks := stops.marks

end Stops

section Words

theorem leadsTo_of_token {cursor after : Cursor} {word : List Char}
    (read : token cursor = .ok (word, after)) : cursor.LeadsTo [word] after := by
  obtain ⟨_, rfl, leads⟩ := reads_token.sound read
  refine ⟨leads, ?_⟩
  simp only [token] at read
  split at read
  · cases read
  · cases read
    exact ⟨_, (cursor.passes_skip _).append (Cursor.passes_skip _ _)⟩

theorem stops_of_token (readable : List Char → Prop) {cursor : Cursor} {trail : List Mark}
    (read : token cursor = .error trail) : Stops readable cursor trail [] cursor where
  leadsTo := cursor.leadsTo_self
  allReadable := by simp
  refuses {word after} leads := by
    obtain ⟨offset, found⟩ := reads_token.complete cursor rfl leads
    rw [read] at found
    cases found
  marks := by
    simp only [token] at read
    split at read
    · cases read
      exact cursor.marks_behind_gap _
    · cases read

/-- A reader of one token, which it converts or refuses in front of the gap before it. -/
theorem covers_of_token
    (missing : ∀ {cursor trail}, token cursor = .error trail → reader cursor = .error trail)
    (found : ∀ {cursor word after}, token cursor = .ok (word, after) →
      (∃ value, reader cursor = .ok (value, after)) ∧ readable word ∨
        (∃ label, reader cursor = .error [⟨cursor.offset, label⟩]) ∧ ¬ readable word) :
    Covers readable 1 reader where
  passes {cursor after value} read := by
    cases isToken : token cursor with
    | error trail =>
        rw [missing isToken] at read
        cases read
    | ok result =>
        obtain ⟨word, place⟩ := result
        rcases found isToken with ⟨⟨_, converted⟩, isReadable⟩ | ⟨⟨_, refused⟩, _⟩
        · rw [converted] at read
          cases read
          exact ⟨[word], rfl, by simpa using isReadable, leadsTo_of_token isToken⟩
        · rw [refused] at read
          cases read
  stops {cursor trail} read := by
    refine ⟨[], cursor, by simp, ?_⟩
    cases isToken : token cursor with
    | error inner =>
        rw [missing isToken] at read
        cases read
        exact stops_of_token readable isToken
    | ok result =>
        obtain ⟨word, place⟩ := result
        rcases found isToken with ⟨⟨_, converted⟩, _⟩ | ⟨⟨_, refused⟩, notReadable⟩
        · rw [converted] at read
          cases read
        · rw [refused] at read
          cases read
          refine ⟨cursor.leadsTo_self, by simp, ?_, cursor.marks_here _⟩
          intro other after leads
          obtain ⟨same, _⟩ := (leadsTo_of_token isToken).leads.cons_inj leads
          exact same ▸ notReadable

theorem covers_count : Covers (fun word => ∃ n, Decimal.readCount word = some n) 1 count := by
  apply covers_of_token
  · intro cursor trail missing
    simp only [count, missing]
  · intro cursor word after found
    cases converted : Decimal.readCount word with
    | none => exact .inr ⟨⟨.unreadable, by simp only [count, found, converted]⟩, by simp⟩
    | some n => exact .inl ⟨⟨n, by simp only [count, found, converted]⟩, n, rfl⟩

theorem within_eq_error_iff {part : Section} {cursor : Cursor} {trail : List Mark} :
    within part reader cursor = .error trail ↔
      ∃ inner, reader cursor = .error inner ∧ trail = inner ++ [⟨cursor.offset, .inside part⟩] := by
  unfold within
  cases reader cursor <;> simp [eq_comm]

theorem Covers.within (covers : Covers readable size reader) (part : Section) :
    Covers readable size (within part reader) where
  passes read := covers.passes (within_eq_ok_iff.mp read)
  stops read := by
    obtain ⟨inner, failed, rfl⟩ := within_eq_error_iff.mp read
    obtain ⟨words, place, short, stops⟩ := covers.stops failed
    exact ⟨words, place, short, stops.append_marks _⟩

theorem covers_number : Covers ReadsNumber 1 number := by
  apply Covers.within
  apply covers_of_token
  · intro cursor trail missing
    simp only [missing]
  · intro cursor word after found
    simp only [found]
    cases converted : Decimal.readNumber word with
    | none =>
        refine .inr ⟨⟨.unreadable, rfl⟩, ?_⟩
        rintro ⟨_, _, isNumber, _⟩
        rw [converted] at isNumber
        cases isNumber
    | some value =>
        cases finite : value.isFinite with
        | true => exact .inl ⟨⟨value.toFloat, by simp [finite]⟩, _, value, converted, finite, rfl⟩
        | false =>
            refine .inr ⟨⟨.notFinite, by simp [finite]⟩, ?_⟩
            rintro ⟨_, _, isNumber, isFinite, _⟩
            rw [converted] at isNumber
            cases isNumber
            rw [finite] at isFinite
            cases isFinite

end Words

section Repetition

/-- One reader and then another one.  A failure of the first may be marked further. -/
theorem covers_of_sequence {γ δ : Type} {front back : Nat} {first : Reader γ} {next : γ → Reader δ}
    (coversFirst : Covers readable front first) (coversNext : ∀ value, Covers readable back (next value))
    (refused : ∀ {cursor trail}, first cursor = .error trail →
      ∃ outer, reader cursor = .error (trail ++ outer))
    (accepted : ∀ {cursor value place}, first cursor = .ok (value, place) →
      ∃ make : δ → β, reader cursor = (next value place).map (Prod.map make id)) :
    Covers readable (front + back) reader where
  passes {cursor after value} read := by
    cases isFirst : first cursor with
    | error inner =>
        obtain ⟨outer, failed⟩ := refused isFirst
        cases failed.symm.trans read
    | ok result =>
        obtain ⟨item, place⟩ := result
        obtain ⟨make, sequenced⟩ := accepted isFirst
        cases isNext : next item place with
        | error trail =>
            rw [isNext] at sequenced
            cases sequenced.symm.trans read
        | ok last =>
            rw [isNext] at sequenced
            cases sequenced.symm.trans read
            obtain ⟨words, length, allReadable, toPlace⟩ := coversFirst.passes isFirst
            obtain ⟨others, lengthOthers, othersReadable, fromPlace⟩ :=
              (coversNext item).passes isNext
            refine ⟨words ++ others, ?_, List.forall_mem_append.mpr ⟨allReadable, othersReadable⟩,
              toPlace.append fromPlace⟩
            rw [List.length_append, length, lengthOthers]
  stops {cursor trail} read := by
    cases isFirst : first cursor with
    | error inner =>
        obtain ⟨outer, failed⟩ := refused isFirst
        cases failed.symm.trans read
        obtain ⟨words, place, short, stops⟩ := coversFirst.stops isFirst
        exact ⟨words, place, Nat.lt_add_right back short, stops.append_marks outer⟩
    | ok result =>
        obtain ⟨item, place⟩ := result
        obtain ⟨make, sequenced⟩ := accepted isFirst
        cases isNext : next item place with
        | error inner =>
            rw [isNext] at sequenced
            cases sequenced.symm.trans read
            obtain ⟨words, length, allReadable, toPlace⟩ := coversFirst.passes isFirst
            obtain ⟨others, last, short, stops⟩ := (coversNext item).stops isNext
            refine ⟨words ++ others, last, ?_, stops.after toPlace allReadable⟩
            rw [List.length_append, length]
            exact Nat.add_lt_add_left short front
        | ok last =>
            rw [isNext] at sequenced
            cases sequenced.symm.trans read

theorem Covers.timesFrom (covers : Covers readable size reader) (origin amount : Nat)
    (items : Array β) : Covers readable (amount * size) (timesFrom reader origin amount items) := by
  induction amount generalizing items with
  | zero =>
      rw [Nat.zero_mul]
      constructor
      · rintro cursor after value ⟨⟩
        exact ⟨[], rfl, by simp, cursor.leadsTo_self⟩
      · rintro cursor trail ⟨⟩
  | succ amount inductionHypothesis =>
      rw [Nat.succ_mul, Nat.add_comm]
      apply covers_of_sequence covers fun item => inductionHypothesis (items.push item)
      · intro cursor trail refused
        exact ⟨[⟨origin, .repetition⟩], by rw [Reader.timesFrom, refused]⟩
      · intro cursor item place accepted
        refine ⟨id, ?_⟩
        simp only [Reader.timesFrom, accepted]
        cases Reader.timesFrom reader origin amount (items.push item) place <;> rfl

theorem Covers.times (covers : Covers readable size reader) (amount : Nat) :
    Covers readable (amount * size) (times amount reader) where
  passes {cursor _ _} read := (covers.timesFrom cursor.offset amount #[]).passes read
  stops {cursor _} read := (covers.timesFrom cursor.offset amount #[]).stops read

theorem covers_row (m : Nat) : Covers ReadsNumber (m + 1) (row m) := by
  have covers := covers_number.times m
  rw [Nat.mul_one] at covers
  apply covers_of_sequence covers fun _ => covers_number.within .rhs
  · intro cursor trail refused
    exact ⟨[], by rw [row, refused, List.append_nil]⟩
  · intro cursor coefficients place accepted
    refine ⟨fun rhs => (coefficients, rhs), ?_⟩
    simp only [row, accepted]
    cases Reader.within .rhs number place <;> rfl

end Repetition

end Reader

end TwoPhase
