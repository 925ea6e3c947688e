import TwoPhase.Problem.Display
import TwoPhase.Proofs.Binary64.Sign
import TwoPhase.Proofs.Decimal.Plain
import TwoPhase.Proofs.Problem.WellFormed
import TwoPhase.Proofs.Text.PrefixFree

/-!
# What the text of a problem says

The magnitude and the variable of a term end with a space, a constraint ends with its line, and a
blank line ends the constraints.  So the text of a problem given by rows of numbers tells all of
them, up to the signs of zero coefficients.
-/

namespace TwoPhase

/-- A way to write numbers: different finite numbers have different texts, which consist of digits,
points and minus signs. -/
structure WritesNumbers (write : Float → String) : Prop where
  injective {x y : Float} : x.isFinite = true → y.isFinite = true → write x = write y → x = y
  characters {x : Float} : x.isFinite = true →
    ∀ c ∈ (write x).toList, c.isDigit = true ∨ c = '.' ∨ c = '-'

theorem WritesNumbers.notMem {write : Float → String} (numbers : WritesNumbers write) {x : Float}
    (finite : x.isFinite = true) {mark : Char}
    (other : ¬(mark.isDigit = true ∨ mark = '.' ∨ mark = '-')) : mark ∉ (write x).toList :=
  mt (numbers.characters finite mark) other

theorem writesNumbers_plain : WritesNumbers Decimal.plain where
  injective := Decimal.plain_injective
  characters := Decimal.characters_plain

theorem notMem_repr {n : Nat} {mark : Char} (notDigit : mark.isDigit = false) :
    mark ∉ n.repr.toList := by
  intro member
  rw [Decimal.isDigit_of_mem_repr member] at notDigit
  cases notDigit

namespace Problem

open Text (PrefixFree NoneAhead cut_unique)

variable {write : Float → String}

section Parts

variable (write)

def writtenTerm (term : Nat × Float) : List Char :=
  (termText write (0.0 ≤ term.2) term.2 s!"x{term.1}").toList

/-- The line of a constraint all of whose terms are written. -/
def writtenLine (constraint : Constraint Float) : List Char :=
  constraint.terms.flatMap (writtenTerm write) ++
    ("= " ++ write constraint.rhs ++ "\n").toList

def writtenBound (id : Nat) : List Char :=
  (s!"x{id}" ++ " ≥ 0\n").toList

theorem writtenTerm_append (term : Nat × Float) (rest : List Char) :
    writtenTerm write term ++ rest =
      (if 0.0 ≤ term.2 then '+' else '-') :: ' ' :: ((write term.2.abs).toList ++
        ' ' :: 'x' :: (term.1.repr.toList ++ ' ' :: rest)) := by
  unfold writtenTerm termText
  by_cases above : 0.0 ≤ term.2 <;> simp [above, toString]

theorem writtenLine_append (constraint : Constraint Float) (rest : List Char) :
    writtenLine write constraint ++ rest =
      constraint.terms.flatMap (writtenTerm write) ++
        '=' :: ' ' :: ((write constraint.rhs).toList ++ '\n' :: rest) := by
  simp [writtenLine]

theorem writtenBound_append (id : Nat) (rest : List Char) :
    writtenBound id ++ rest = 'x' :: (id.repr.toList ++ ' ' :: ("≥ 0\n".toList ++ rest)) := by
  simp [writtenBound, toString]

end Parts

section Apart

/-- A term that is written has a finite coefficient other than zero. -/
def IsWritten (term : Nat × Float) : Prop :=
  term.2.isFinite = true ∧ (term.2 == 0.0) = false

def IsWrittenLine (constraint : Constraint Float) : Prop :=
  (∀ term ∈ constraint.terms, IsWritten term) ∧ constraint.rhs.isFinite = true

theorem prefixFree_writtenTerm (numbers : WritesNumbers write) :
    PrefixFree IsWritten (writtenTerm write) := by
  rintro ⟨id, value⟩ ⟨otherId, other⟩ rest others ⟨finite, nonzero⟩ ⟨finiteOther, nonzeroOther⟩
    equal
  have finiteAbs := Binary64.isFinite_abs finite nonzero
  have finiteAbsOther := Binary64.isFinite_abs finiteOther nonzeroOther
  rw [writtenTerm_append, writtenTerm_append, List.cons.injEq, List.cons.injEq] at equal
  obtain ⟨sameSign, _, equal⟩ := equal
  obtain ⟨sameText, equal⟩ := cut_unique (numbers.notMem finiteAbs (by decide))
    (numbers.notMem finiteAbsOther (by decide)) equal
  rw [List.cons.injEq] at equal
  obtain ⟨sameId, same⟩ := cut_unique (notMem_repr rfl) (notMem_repr rfl) equal.2
  rw [String.toList_inj] at sameText sameId
  have sign : 0.0 ≤ value ↔ 0.0 ≤ other := by
    by_cases above : 0.0 ≤ value <;> by_cases aboveOther : 0.0 ≤ other <;>
      simp [above, aboveOther] at sameSign ⊢
  have sameValue := Binary64.eq_of_abs_eq finite nonzero finiteOther nonzeroOther sign
    (numbers.injective finiteAbs finiteAbsOther sameText)
  exact ⟨Prod.ext (Nat.repr_inj.mp sameId) sameValue, same⟩

theorem noneAhead_writtenTerm {mark : Char} (notPlus : mark ≠ '+') (notMinus : mark ≠ '-')
    (rest : List Char) : NoneAhead IsWritten (writtenTerm write) (mark :: rest) := by
  rintro term others _ equal
  rw [writtenTerm_append] at equal
  have first := (List.cons.inj equal).1
  split at first
  · exact notPlus first
  · exact notMinus first

theorem prefixFree_writtenLine (numbers : WritesNumbers write) :
    PrefixFree IsWrittenLine (writtenLine write) := by
  rintro ⟨terms, rhs⟩ ⟨otherTerms, otherRhs⟩ rest others ⟨written, finite⟩
    ⟨writtenOther, finiteOther⟩ equal
  rw [writtenLine_append, writtenLine_append] at equal
  obtain ⟨sameTerms, equal⟩ := (prefixFree_writtenTerm numbers).flatMap written writtenOther
    (noneAhead_writtenTerm (by decide) (by decide) _)
    (noneAhead_writtenTerm (by decide) (by decide) _) equal
  rw [List.cons.injEq, List.cons.injEq] at equal
  obtain ⟨sameText, same⟩ := cut_unique (numbers.notMem finite (by decide))
    (numbers.notMem finiteOther (by decide)) equal.2.2
  have sameRhs := numbers.injective finite finiteOther (String.toList_inj.mp sameText)
  dsimp only at sameTerms sameRhs
  rw [sameTerms, sameRhs]
  exact ⟨rfl, same⟩

/-- A blank line is not the line of a constraint. -/
theorem noneAhead_writtenLine (rest : List Char) :
    NoneAhead IsWrittenLine (writtenLine write) ('\n' :: rest) := by
  rintro ⟨terms, rhs⟩ others _ equal
  rw [writtenLine_append] at equal
  cases terms with
  | nil => cases (List.cons.inj equal).1
  | cons term terms =>
      rw [List.flatMap_cons, List.append_assoc, writtenTerm_append] at equal
      have first := (List.cons.inj equal).1
      split at first <;> cases first

theorem prefixFree_writtenBound : PrefixFree (fun _ => True) writtenBound := by
  intro id other rest others _ _ equal
  rw [writtenBound_append, writtenBound_append, List.cons.injEq] at equal
  obtain ⟨sameId, same⟩ := cut_unique (notMem_repr rfl) (notMem_repr rfl) equal.2
  exact ⟨Nat.repr_inj.mp (String.toList_inj.mp sameId), List.append_cancel_left same⟩

theorem noneAhead_writtenBound : NoneAhead (fun _ => True) writtenBound [] := by
  intro id others _ equal
  rw [writtenBound_append] at equal
  cases equal

end Apart

section Dense

/-- The terms of a row of numbers that are written. -/
def writtenTerms (values : List Float) : List (Nat × Float) :=
  (values.mapIdx fun id value => (id, value)).filter fun term => !(term.2 == 0.0)

def writtenConstraint (row : List Float × Float) : Constraint Float :=
  ⟨writtenTerms row.1, row.2⟩

theorem mem_writtenTerms_iff {values : List Float} {id : Nat} {value : Float} :
    (id, value) ∈ writtenTerms values ↔ values[id]? = some value ∧ (value == 0.0) = false := by
  simp [writtenTerms, List.mem_mapIdx, List.getElem?_eq_some_iff]

theorem isWritten_of_mem_writtenTerms {values : List Float} {term : Nat × Float}
    (finite : ∀ value ∈ values, Scalar.isFinite value = true)
    (member : term ∈ writtenTerms values) :
    IsWritten term := by
  obtain ⟨isAt, nonzero⟩ := mem_writtenTerms_iff.mp member
  exact ⟨finite _ (List.mem_of_getElem? isAt), nonzero⟩

theorem isWrittenLine_of_mem {m : Nat} {rows : List (List Float × Float)}
    (fits : ∀ row ∈ rows, FitsRow m row) :
    ∀ constraint ∈ rows.map writtenConstraint, IsWrittenLine constraint := by
  rw [List.forall_mem_map]
  intro row member
  obtain ⟨_, finite⟩ := fits row member
  rw [rowValues, List.forall_mem_append, List.forall_mem_singleton] at finite
  exact ⟨fun _ => isWritten_of_mem_writtenTerms finite.1, finite.2⟩

theorem flatMap_filter {β : Type} (keep : β → Bool) (text : β → List Char) (items : List β) :
    (items.filter keep).flatMap text =
      items.flatMap fun item => if keep item then text item else [] := by
  induction items with
  | nil => rfl
  | cons item items inductionHypothesis =>
      by_cases kept : keep item <;> simp [kept, inductionHypothesis]

theorem toList_objectiveTermText {id : Nat} {value : Float} (finite : value.isFinite = true) :
    (objectiveTermText write ⟨id, value, none⟩).toList =
      if !(value == 0.0) then writtenTerm write (id, value) else [] := by
  unfold objectiveTermText
  cases nonzero : value == 0.0 with
  | true => rfl
  | false =>
      simp only [writtenTerm, Binary64.zero_lt_iff_zero_le finite nonzero]
      rfl

theorem toList_objectiveText {objective : List Float}
    (finite : ∀ value ∈ objective, Scalar.isFinite value = true) :
    (String.join ((denseVariables objective).map (objectiveTermText write))).toList =
      (writtenTerms objective).flatMap (writtenTerm write) := by
  rw [writtenTerms, flatMap_filter, String.toList_join, List.flatMap_map, denseVariables,
    List.mapIdx_eq_zipIdx_map, List.mapIdx_eq_zipIdx_map, List.flatMap_map, List.flatMap_map]
  apply List.flatMap_congr
  rintro ⟨value, id⟩ member
  exact toList_objectiveTermText (finite value (List.fst_mem_of_mem_zipIdx member))

theorem toList_constraintTermText {objective : List Float} {id : Nat} {value : Float}
    (known : id < objective.length) :
    (constraintTermText write (denseVariables objective).toArray (id, value)).toList =
      if !(value == 0.0) then writtenTerm write (id, value) else [] := by
  have isVariable : (denseVariables objective).toArray[id]? = some ⟨id, objective[id], none⟩ := by
    simp [denseVariables, known]
  unfold constraintTermText
  rw [isVariable]
  cases value == 0.0 <;> rfl

theorem toList_constraintText {objective : List Float} {row : List Float × Float}
    (fits : FitsRow objective.length row) :
    (constraintText write (denseVariables objective).toArray (denseConstraint row)).toList =
      writtenLine write (writtenConstraint row) := by
  have terms : (String.join (((denseConstraint row).terms).map
        (constraintTermText write (denseVariables objective).toArray))).toList =
      (writtenTerms row.1).flatMap (writtenTerm write) := by
    rw [writtenTerms, flatMap_filter, String.toList_join, List.flatMap_map, denseConstraint]
    apply List.flatMap_congr
    rintro ⟨id, value⟩ member
    obtain ⟨_, below, same⟩ := List.mem_mapIdx.mp member
    cases same
    exact toList_constraintTermText (below.trans_eq fits.1)
  rw [constraintText, writtenLine, String.toList_append, String.toList_append, String.toList_append,
    terms]
  simp [writtenConstraint, denseConstraint]

theorem toList_boundsText (objective : List Float) :
    (String.join ((denseVariables objective).map fun v => v.label ++ " ≥ 0\n")).toList =
      (List.range objective.length).flatMap writtenBound := by
  rw [String.toList_join, List.flatMap_map, denseVariables, List.mapIdx_eq_zipIdx_map,
    List.flatMap_map, List.range_eq_range', ← List.zipIdx_map_snd 0 objective, List.flatMap_map]
  rfl

/-- The parts of the text, each a sequence of items, and what separates them. -/
theorem toList_textWith_dense {objective : List Float} {rows : List (List Float × Float)}
    (finite : ∀ value ∈ objective, Scalar.isFinite value = true)
    (fits : ∀ row ∈ rows, FitsRow objective.length row) :
    ((dense objective rows).textWith write).toList =
      "maximize\n".toList ++ ((writtenTerms objective).flatMap (writtenTerm write) ++
        '\n' :: ("\nsubject to\n".toList ++
          ((rows.map writtenConstraint).flatMap (writtenLine write) ++
            '\n' :: ("with the bounds\n".toList ++
              (List.range objective.length).flatMap writtenBound)))) := by
  have constraintsText : (String.join ((rows.map denseConstraint).map
        (constraintText write (denseVariables objective).toArray))).toList =
      (rows.map writtenConstraint).flatMap (writtenLine write) := by
    rw [String.toList_join, List.flatMap_map, List.flatMap_map, List.flatMap_map]
    exact List.flatMap_congr fun row member => toList_constraintText (fits row member)
  have afterObjective : "\n\nsubject to\n".toList = '\n' :: "\nsubject to\n".toList := by decide
  have afterConstraints : "\nwith the bounds\n".toList = '\n' :: "with the bounds\n".toList := by
    decide
  simp only [textWith, dense, String.toList_append, List.append_assoc, toList_objectiveText finite,
    toList_boundsText, constraintsText, afterObjective, afterConstraints, List.cons_append]

end Dense

section Same

theorem Constructed.exists_dense {problem : Problem Float} (constructed : problem.Constructed) :
    ∃ objective rows, (∀ value ∈ objective, Scalar.isFinite value = true) ∧
      (∀ row ∈ rows, FitsRow objective.length row) ∧ problem = Problem.dense objective rows := by
  cases constructed with
  | empty => exact ⟨[], [], nofun, nofun, rfl⟩
  | dense made => exact ⟨_, _, ofDense_eq_ok_iff.mp made⟩
  | parsed accepted =>
      obtain ⟨words, objective, rows, _, spells, rfl⟩ := parse_eq_ok_iff.mp accepted
      exact ⟨objective, rows, ofDense_eq_ok_iff.mp spells.ofDense_eq⟩

/-- The problems have the same numbers, but zero coefficients may differ in sign. -/
structure SameNumbers (p q : Problem Float) : Prop where
  vars_size : p.vars.size = q.vars.size
  constraints_size : p.constraints.size = q.constraints.size
  objective :
    List.Forall₂ (fun v w => (v.objective == w.objective) = true) p.vars.toList q.vars.toList
  coefficients :
    List.Forall₂ (fun c d =>
        List.Forall₂ (fun s t => s.1 = t.1 ∧ (s.2 == t.2) = true) c.terms d.terms)
      p.constraints.toList q.constraints.toList
  rhs : p.constraints.map Constraint.rhs = q.constraints.map Constraint.rhs

/-- Rows of one length in which the same terms are written have equal numbers. -/
theorem forall₂_beq_of_writtenTerms_eq {values others : List Float}
    (finite : ∀ value ∈ values, Scalar.isFinite value = true)
    (length : values.length = others.length) (same : writtenTerms values = writtenTerms others) :
    List.Forall₂ (fun value other => (value == other) = true) values others := by
  rw [List.forall₂_iff_get]
  refine ⟨length, fun id below belowOther => ?_⟩
  have written (value : Float) : (id, value) ∈ writtenTerms values ↔
      (id, value) ∈ writtenTerms others := by rw [same]
  simp only [mem_writtenTerms_iff, List.getElem?_eq_getElem below,
    List.getElem?_eq_getElem belowOther, Option.some.injEq] at written
  rw [List.get_eq_getElem, List.get_eq_getElem]
  cases zero : values[id] == 0.0 with
  | false =>
      rw [((written values[id]).mp ⟨rfl, zero⟩).1]
      exact Binary64.beq_self_of_isFinite (finite _ (List.getElem_mem below))
  | true =>
      cases zeroOther : others[id] == 0.0 with
      | false =>
          rw [((written others[id]).mpr ⟨rfl, zeroOther⟩).1, zeroOther] at zero
          cases zero
      | true => exact Binary64.beq_of_beq_zero zero zeroOther

theorem forall₂_mapIdx {β γ : Type} {relation : β → β → Prop} {image : γ → γ → Prop}
    {f : Nat → β → γ} (related : ∀ id item other, relation item other →
      image (f id item) (f id other)) {items others : List β}
    (all : List.Forall₂ relation items others) :
    List.Forall₂ image (items.mapIdx f) (others.mapIdx f) := by
  rw [List.forall₂_iff_get] at all ⊢
  simp only [List.length_mapIdx, List.get_eq_getElem, List.getElem_mapIdx] at all ⊢
  exact ⟨all.1, fun id below belowOther => related _ _ _ (all.2 id below belowOther)⟩

theorem sameNumbers_dense {objective otherObjective : List Float}
    {rows otherRows : List (List Float × Float)}
    (finite : ∀ value ∈ objective, Scalar.isFinite value = true)
    (fits : ∀ row ∈ rows, FitsRow objective.length row)
    (fitsOther : ∀ row ∈ otherRows, FitsRow otherObjective.length row)
    (length : objective.length = otherObjective.length)
    (sameObjective : writtenTerms objective = writtenTerms otherObjective)
    (sameRows : rows.map writtenConstraint = otherRows.map writtenConstraint) :
    SameNumbers (dense objective rows) (dense otherObjective otherRows) where
  vars_size := by
    change (denseVariables objective).length = (denseVariables otherObjective).length
    rw [length_denseVariables, length_denseVariables, length]
  constraints_size := by
    simpa [dense] using congrArg List.length sameRows
  objective := by
    change List.Forall₂ _ (denseVariables objective) (denseVariables otherObjective)
    apply forall₂_mapIdx _ (forall₂_beq_of_writtenTerms_eq finite length sameObjective)
    exact fun _ _ _ equal => equal
  coefficients := by
    change List.Forall₂ _ (rows.map denseConstraint) (otherRows.map denseConstraint)
    rw [← List.forall₂_eq_eq_eq, List.forall₂_map_left_iff, List.forall₂_map_right_iff,
      List.forall₂_iff_get] at sameRows
    rw [List.forall₂_map_left_iff, List.forall₂_map_right_iff, List.forall₂_iff_get]
    refine ⟨sameRows.1, fun place below belowOther => ?_⟩
    have sameTerms := congrArg Constraint.terms (sameRows.2 place below belowOther)
    obtain ⟨size, finiteRow⟩ := fits _ (List.get_mem rows ⟨place, below⟩)
    have sizeOther := (fitsOther _ (List.get_mem otherRows ⟨place, belowOther⟩)).1
    rw [rowValues, List.forall_mem_append] at finiteRow
    apply forall₂_mapIdx _ (forall₂_beq_of_writtenTerms_eq finiteRow.1
      (size.trans (length.trans sizeOther.symm)) sameTerms)
    exact fun _ _ _ equal => ⟨rfl, equal⟩
  rhs := by
    simpa [dense, denseConstraint, writtenConstraint, Function.comp_def] using
      congrArg (List.map Constraint.rhs) sameRows

/-- Problems that rows of numbers or texts make have the same numbers if they are written as the
same text. -/
theorem sameNumbers_of_textWith_eq (numbers : WritesNumbers write) {p q : Problem Float}
    (pConstructed : p.Constructed) (qConstructed : q.Constructed)
    (same : p.textWith write = q.textWith write) : SameNumbers p q := by
  obtain ⟨objective, rows, finite, fits, rfl⟩ := pConstructed.exists_dense
  obtain ⟨otherObjective, otherRows, finiteOther, fitsOther, rfl⟩ := qConstructed.exists_dense
  rw [← String.toList_inj, toList_textWith_dense finite fits,
    toList_textWith_dense finiteOther fitsOther, List.append_right_inj] at same
  obtain ⟨sameObjective, same⟩ := (prefixFree_writtenTerm numbers).flatMap
    (fun _ => isWritten_of_mem_writtenTerms finite)
    (fun _ => isWritten_of_mem_writtenTerms finiteOther)
    (noneAhead_writtenTerm (by decide) (by decide) _)
    (noneAhead_writtenTerm (by decide) (by decide) _) same
  rw [List.cons_inj_right, List.append_right_inj] at same
  obtain ⟨sameRows, same⟩ := (prefixFree_writtenLine numbers).flatMap
    (isWrittenLine_of_mem fits) (isWrittenLine_of_mem fitsOther) (noneAhead_writtenLine _)
    (noneAhead_writtenLine _) same
  -- Only the bounds tell how many variables there are.
  rw [List.cons_inj_right, List.append_right_inj, ← List.append_nil (List.flatMap _ _),
    ← List.append_nil (List.flatMap _ (List.range otherObjective.length))] at same
  obtain ⟨sameBounds, _⟩ := prefixFree_writtenBound.flatMap (fun _ _ => trivial)
    (fun _ _ => trivial) noneAhead_writtenBound noneAhead_writtenBound same
  have length : objective.length = otherObjective.length := by
    simpa using congrArg List.length sameBounds
  exact sameNumbers_dense finite fits fitsOther length sameObjective sameRows

/-- The signs of zeros are the only difference that the text does not tell. -/
theorem sameNumbers_of_signed_zeros :
    let p : Problem Float := dense [1, -0.0, -2] [([0.5, 0, 3], -4)]
    let q : Problem Float := dense [1, 0, -2] [([0.5, -0.0, 3], -4)]
    WritesNumbers Decimal.plain ∧ ofDense [1, -0.0, -2] [([0.5, 0, 3], -4)] = .ok p ∧
      ofDense [1, 0, -2] [([0.5, -0.0, 3], -4)] = .ok q ∧
      p.textWith Decimal.plain = q.textWith Decimal.plain ∧ SameNumbers p q := by
  intro p q
  have finite : ∀ value ∈ [1, -0.0, -2], Scalar.isFinite (value : Float) = true := by
    decide +kernel
  have finiteOther : ∀ value ∈ [1, 0, -2], Scalar.isFinite (value : Float) = true := by
    decide +kernel
  have fits : ∀ row ∈ [([0.5, 0, 3], -4)], FitsRow 3 (row : List Float × Float) := by
    rw [List.forall_mem_singleton, FitsRow]
    decide +kernel
  have fitsOther : ∀ row ∈ [([0.5, -0.0, 3], -4)], FitsRow 3 (row : List Float × Float) := by
    rw [List.forall_mem_singleton, FitsRow]
    decide +kernel
  have made := ofDense_eq finite fits
  have madeOther := ofDense_eq finiteOther fitsOther
  have terms : writtenTerms [1, -0.0, -2] = writtenTerms [1, 0, -2] := rfl
  have row : writtenTerms [0.5, 0, 3] = writtenTerms [0.5, -0.0, 3] := rfl
  have same : p.textWith Decimal.plain = q.textWith Decimal.plain := by
    rw [← String.toList_inj, toList_textWith_dense finite fits,
      toList_textWith_dense finiteOther fitsOther, terms]
    simp only [List.map_cons, List.map_nil, writtenConstraint, row, List.length_cons]
  exact ⟨writesNumbers_plain, made, madeOther, same,
    sameNumbers_of_textWith_eq writesNumbers_plain (.dense made) (.dense madeOther) same⟩

end Same

end Problem

end TwoPhase
