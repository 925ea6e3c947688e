import Mathlib.Data.List.TakeWhile
import TwoPhase.Text.Blank

/-!
# Words between gaps

Only four characters stand between words, while every white space character ends one.  A text is
separated into words where nothing but gaps of those four lies before, between and after them.
`Leads` is the same seen from the front, as a reader sees it: words up to a place in the text.
-/

namespace TwoPhase.Text

def IsGap (gap : List Char) : Prop :=
  ∀ c ∈ gap, isSeparator c = true

/-- One character or more, and no white space of any kind. -/
def IsWord (word : List Char) : Prop :=
  word ≠ [] ∧ ∀ c ∈ word, isWhiteSpace c = false

/-- A word that stands before `rest` is over. -/
def EndsWord (rest : List Char) : Prop :=
  ∀ c ∈ rest.head?, isWhiteSpace c = true

/-- A gap, and then words with the gap after each one. -/
def spaced (first : List Char) (words : List (List Char × List Char)) : List Char :=
  first ++ words.flatMap fun word => word.1 ++ word.2

/-- The text consists of the words and of gaps, which between two words are not empty. -/
def Separated (text : List Char) (words : List (List Char)) : Prop :=
  ∃ first followed, text = spaced first followed ∧ words = followed.map Prod.fst ∧
    IsGap first ∧ (∀ word ∈ followed, IsWord word.1 ∧ IsGap word.2) ∧
    ∀ word ∈ followed.dropLast, word.2 ≠ []

/-- Reading the words in order, each with the gap before it, leads from one place to another. -/
inductive Leads : List (List Char) → List Char → List Char → Prop
  | here {text : List Char} : Leads [] text text
  | word {gap word rest last text : List Char} {words : List (List Char)} :
      text = gap ++ (word ++ rest) → IsGap gap → IsWord word → EndsWord rest →
        Leads words rest last → Leads (word :: words) text last

section Gaps

theorem isGap_takeWhile (text : List Char) : IsGap (text.takeWhile isSeparator) :=
  fun _ member => List.mem_takeWhile_imp member

theorem IsGap.endsWord {gap rest : List Char} (isGap : IsGap gap) (nonempty : gap ≠ []) :
    EndsWord (gap ++ rest) := by
  obtain ⟨c, more, rfl⟩ := List.exists_cons_of_ne_nil nonempty
  intro first isFirst
  cases isFirst
  exact isWhiteSpace_of_isSeparator (isGap c List.mem_cons_self)

theorem IsGap.endsWord_self {gap : List Char} (isGap : IsGap gap) : EndsWord gap := by
  cases gap with
  | nil => simp [EndsWord]
  | cons c more =>
      have ends : EndsWord (c :: more ++ []) := isGap.endsWord (List.cons_ne_nil c more)
      simpa using ends

theorem IsWord.not_isSeparator {word : List Char} (isWord : IsWord word) {c : Char}
    (member : c ∈ word) : isSeparator c = false := by
  by_contra separates
  have white := isWhiteSpace_of_isSeparator (Bool.not_eq_false _ ▸ separates)
  rw [isWord.2 c member] at white
  cases white

theorem IsWord.not_endsWord {word rest : List Char} (isWord : IsWord word) :
    ¬EndsWord (word ++ rest) := by
  intro ends
  obtain ⟨c, more, rfl⟩ := List.exists_cons_of_ne_nil isWord.1
  have white := ends c rfl
  rw [isWord.2 c List.mem_cons_self] at white
  cases white

end Gaps

section Taking

variable {gap word rest : List Char}

theorem endsWord_dropWhile (text : List Char) :
    EndsWord (text.dropWhile fun c => !isWhiteSpace c) := by
  intro c isFirst
  have stops := List.head?_dropWhile_not (fun c => !isWhiteSpace c) text
  rw [Option.mem_def.mp isFirst] at stops
  simpa using stops

theorem EndsWord.dropWhile_eq_self (ends : EndsWord rest) :
    rest.dropWhile (fun c => !isWhiteSpace c) = rest := by
  cases rest with
  | nil => rfl
  | cons c more => simp [ends c rfl]

theorem EndsWord.takeWhile_eq_nil (ends : EndsWord rest) :
    rest.takeWhile (fun c => !isWhiteSpace c) = [] := by
  cases rest with
  | nil => rfl
  | cons c more => simp [ends c rfl]

theorem IsGap.dropWhile_append (isGap : IsGap gap) (isWord : IsWord word) :
    (gap ++ (word ++ rest)).dropWhile isSeparator = word ++ rest := by
  obtain ⟨c, more, rfl⟩ := List.exists_cons_of_ne_nil isWord.1
  rw [List.dropWhile_append_of_pos isGap]
  simp [isWord.not_isSeparator List.mem_cons_self]

theorem IsWord.takeWhile_append (isWord : IsWord word) (ends : EndsWord rest) :
    (word ++ rest).takeWhile (fun c => !isWhiteSpace c) = word := by
  rw [List.takeWhile_append_of_pos fun c member => by simp [isWord.2 c member],
    ends.takeWhile_eq_nil, List.append_nil]

theorem IsWord.dropWhile_append (isWord : IsWord word) (ends : EndsWord rest) :
    (word ++ rest).dropWhile (fun c => !isWhiteSpace c) = rest := by
  rw [List.dropWhile_append_of_pos fun c member => by simp [isWord.2 c member],
    ends.dropWhile_eq_self]

end Taking

section Separated

variable {text : List Char} {word : List Char} {words : List (List Char)}

theorem separated_nil_iff : Separated text [] ↔ IsGap text := by
  constructor
  · rintro ⟨first, followed, rfl, none, isGap, _, _⟩
    obtain rfl := List.map_eq_nil_iff.mp none.symm
    simpa [spaced] using isGap
  · intro isGap
    exact ⟨text, [], by simp [spaced], rfl, isGap, by simp, by simp⟩

theorem separated_cons_iff :
    Separated text (word :: words) ↔
      ∃ gap rest, text = gap ++ (word ++ rest) ∧ IsGap gap ∧ IsWord word ∧ EndsWord rest ∧
        Separated rest words := by
  constructor
  · rintro ⟨first, followed, rfl, isWords, firstGap, parts, between⟩
    obtain ⟨⟨_, gap⟩, others, rfl, rfl, rfl⟩ := List.map_eq_cons_iff.mp isWords.symm
    have here := parts _ List.mem_cons_self
    have later := fun part member => parts part (List.mem_cons_of_mem _ member)
    refine ⟨first, spaced gap others, by simp [spaced], firstGap, here.1, ?_,
      gap, others, rfl, rfl, here.2, later, ?_⟩
    · cases others with
      | nil => simpa [spaced] using here.2.endsWord_self
      | cons second more => exact here.2.endsWord (between _ (by simp))
    · cases others with
      | nil => simp
      | cons second more => exact fun part member => between part (by simp [member])
  · rintro ⟨gap, rest, rfl, isGap, isWord, ends, next, followed, rfl, rfl, nextGap, parts, between⟩
    refine ⟨gap, (word, next) :: followed, by simp [spaced], rfl, isGap, ?_, ?_⟩
    · rintro part (_ | ⟨_, member⟩)
      · exact ⟨isWord, nextGap⟩
      · exact parts part member
    · cases followed with
      | nil => simp
      | cons second more =>
          rintro part (_ | ⟨_, member⟩)
          · -- An empty gap would run the two words together.
            rintro rfl
            have secondIs := (parts second List.mem_cons_self).1
            apply secondIs.not_endsWord
            simpa [spaced] using ends
          · exact between part member

end Separated

section Leads

variable {first second : List (List Char)} {text middle last : List Char}

theorem leads_nil_iff : Leads [] text last ↔ text = last := by
  constructor
  · intro leads
    cases leads
    rfl
  · rintro rfl
    exact .here

theorem leads_append_iff :
    Leads (first ++ second) text last ↔
      ∃ middle, Leads first text middle ∧ Leads second middle last := by
  induction first generalizing text with
  | nil => simp [leads_nil_iff]
  | cons word words inductionHypothesis =>
      constructor
      · rintro (_ | ⟨split, isGap, isWord, ends, leads⟩)
        obtain ⟨middle, toMiddle, fromMiddle⟩ := inductionHypothesis.mp leads
        exact ⟨middle, .word split isGap isWord ends toMiddle, fromMiddle⟩
      · rintro ⟨middle, _ | ⟨split, isGap, isWord, ends, toMiddle⟩, fromMiddle⟩
        exact .word split isGap isWord ends (inductionHypothesis.mpr ⟨middle, toMiddle, fromMiddle⟩)

theorem separated_iff_leads {words : List (List Char)} :
    Separated text words ↔ ∃ last, Leads words text last ∧ IsGap last := by
  induction words generalizing text with
  | nil => simp [separated_nil_iff, leads_nil_iff]
  | cons word words inductionHypothesis =>
      rw [separated_cons_iff]
      constructor
      · rintro ⟨gap, rest, split, isGap, isWord, ends, separated⟩
        obtain ⟨last, leads, lastGap⟩ := inductionHypothesis.mp separated
        exact ⟨last, .word split isGap isWord ends leads, lastGap⟩
      · rintro ⟨last, _ | ⟨split, isGap, isWord, ends, leads⟩, lastGap⟩
        exact ⟨_, _, split, isGap, isWord, ends, inductionHypothesis.mpr ⟨last, leads, lastGap⟩⟩

theorem Leads.separated_append (leads : Leads first text middle)
    (separated : Separated middle second) : Separated text (first ++ second) := by
  obtain ⟨last, further, lastGap⟩ := separated_iff_leads.mp separated
  exact separated_iff_leads.mpr ⟨last, leads_append_iff.mpr ⟨middle, leads, further⟩, lastGap⟩

end Leads

section Comparison

variable {text rest last : List Char} {word other : List Char} {words others : List (List Char)}

/-- What follows the last word is of no account as long as it ends that word. -/
theorem Leads.exists_passed (leads : Leads words text last) :
    ∃ passed, text = passed ++ last ∧
      ∀ other, EndsWord other → Leads words (passed ++ other) other := by
  induction leads with
  | here => exact ⟨[], rfl, fun _ _ => .here⟩
  | @word gap word rest last text words split isGap isWord ends _ inductionHypothesis =>
      obtain ⟨passed, rfl, elsewhere⟩ := inductionHypothesis
      refine ⟨gap ++ (word ++ passed), by simp [split], ?_⟩
      intro other endsOther
      refine .word (by simp) isGap isWord ?_ (elsewhere other endsOther)
      cases passed with
      | nil => exact endsOther
      | cons c more => exact ends

/-- A text begins with one word at most. -/
theorem Leads.cons_inj (first : Leads (word :: words) text rest)
    (second : Leads (other :: others) text last) :
    word = other ∧ ∃ middle, Leads words middle rest ∧ Leads others middle last := by
  obtain _ | ⟨split, isGap, isWord, ends, leads⟩ := first
  obtain _ | ⟨splitOther, isGapOther, isWordOther, endsOther, leadsOther⟩ := second
  rename_i gap middle gapOther middleOther
  have behindGap : word ++ middle = other ++ middleOther := by
    rw [← isGap.dropWhile_append isWord, ← split, splitOther,
      isGapOther.dropWhile_append isWordOther]
  have sameWord : word = other := by
    rw [← isWord.takeWhile_append ends, behindGap, isWordOther.takeWhile_append endsOther]
  have samePlace : middle = middleOther := by
    rw [← isWord.dropWhile_append ends, behindGap, isWordOther.dropWhile_append endsOther]
  exact ⟨sameWord, middle, leads, samePlace ▸ leadsOther⟩

/-- Of two sequences of words that lead on from one place, one goes on where the other ends. -/
theorem Leads.comparable (first : Leads words text rest) (second : Leads others text last) :
    (∃ more, others = words ++ more ∧ Leads more rest last) ∨
      ∃ more, words = others ++ more ∧ Leads more last rest := by
  induction words generalizing text others with
  | nil =>
      obtain rfl := leads_nil_iff.mp first
      exact .inl ⟨others, rfl, second⟩
  | cons word words inductionHypothesis =>
      cases others with
      | nil =>
          obtain rfl := leads_nil_iff.mp second
          exact .inr ⟨word :: words, rfl, first⟩
      | cons other others =>
          obtain ⟨rfl, middle, leads, leadsOther⟩ := first.cons_inj second
          rcases inductionHypothesis leads leadsOther with ⟨more, rfl, goesOn⟩ | ⟨more, rfl, goesOn⟩
          · exact .inl ⟨more, rfl, goesOn⟩
          · exact .inr ⟨more, rfl, goesOn⟩

end Comparison

end TwoPhase.Text
