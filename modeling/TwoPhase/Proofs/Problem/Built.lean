import TwoPhase.StandardForm

/-!
# Problems that checked additions build

An accepted constraint names variables that the problem has, and later variables are appended.  So a
problem that only accepted additions build is well indexed and has an inequality form.
-/

namespace TwoPhase

variable {α : Type} [Scalar α] {problem next : Problem α}

namespace StandardForm

omit [Scalar α] in
theorem wellIndexed_iff :
    wellIndexed problem = true ↔
      ∀ constraint ∈ problem.constraints, ∀ term ∈ constraint.terms,
        term.1 < problem.vars.size := by
  simp only [wellIndexed, Array.all_eq_true_iff_forall_mem, List.all_eq_true, decide_eq_true_eq]

theorem exists_form_of_wellIndexed (indexed : wellIndexed problem = true) :
    ∃ form, ofProblem? problem = some form := by
  rw [ofProblem?, if_pos indexed]
  exact ⟨_, rfl⟩

end StandardForm

namespace Problem

/-- The problem comes out of the empty one by additions that were all accepted. -/
inductive Built : Problem α → Prop
  | empty : Built .empty
  | addVariable {problem next : Problem α} {objective : α} {name : Option String} :
      Built problem → problem.addVariable objective name = .ok next → Built next
  | addConstraint {problem next : Problem α} {terms : List (Nat × α)} {rhs : α} :
      Built problem → problem.addConstraint terms rhs = .ok next → Built next

theorem addVariable_eq_ok_iff {objective : α} {name : Option String} :
    problem.addVariable objective name = .ok next ↔
      Scalar.isFinite objective = true ∧ (∀ new ∈ name, new ∉ problem.names) ∧
        next = ⟨problem.vars.push ⟨problem.vars.size, objective, name⟩, problem.constraints,
          name.toList ++ problem.names⟩ := by
  unfold addVariable
  split
  · next finite =>
      cases name with
      | none => simp [finite, @eq_comm _ next]
      | some new =>
          by_cases taken : new ∈ problem.names
          · simp [taken]
          · simp [finite, taken, @eq_comm _ next]
  · next notFinite => simp [notFinite]

theorem addConstraint_eq_ok_iff {terms : List (Nat × α)} {rhs : α} :
    problem.addConstraint terms rhs = .ok next ↔
      (∀ term ∈ terms, term.1 < problem.vars.size) ∧
        (∀ term ∈ terms, Scalar.isFinite term.2 = true) ∧ Scalar.isFinite rhs = true ∧
        next = problem.pushConstraint ⟨terms, rhs⟩ := by
  have knownIff : terms.find? (fun term => problem.vars.size ≤ term.1) = none ↔
      ∀ term ∈ terms, term.1 < problem.vars.size := by simp
  have finiteIff : terms.find? (fun term => !Scalar.isFinite term.2) = none ↔
      ∀ term ∈ terms, Scalar.isFinite term.2 = true := by simp
  rw [← knownIff, ← finiteIff]
  unfold addConstraint
  split
  · next unknown => simp [unknown]
  · next known =>
      split
      · next notFinite => simp [notFinite]
      · next finite =>
          split
          · next finiteRhs => simp [known, finite, finiteRhs, pushConstraint, @eq_comm _ next]
          · next notFinite => simp [notFinite]

theorem Built.wellIndexed (built : problem.Built) : StandardForm.wellIndexed problem = true := by
  rw [StandardForm.wellIndexed_iff]
  induction built with
  | empty => simp [Problem.empty]
  | addVariable _ added inductionHypothesis =>
      obtain ⟨_, _, rfl⟩ := addVariable_eq_ok_iff.mp added
      intro constraint member term inTerms
      rw [Array.size_push]
      exact Nat.lt_succ_of_lt (inductionHypothesis constraint member term inTerms)
  | addConstraint _ added inductionHypothesis =>
      obtain ⟨known, _, _, rfl⟩ := addConstraint_eq_ok_iff.mp added
      intro constraint member
      rcases Array.mem_push.mp member with earlier | last
      · exact inductionHypothesis constraint earlier
      · subst last
        exact known

theorem Built.exists_form (built : problem.Built) :
    ∃ form, StandardForm.ofProblem? problem = some form :=
  StandardForm.exists_form_of_wellIndexed built.wellIndexed

theorem Built.addDenseConstraint (built : problem.Built) {coefficients : List α} {rhs : α}
    (added : problem.addDenseConstraint coefficients rhs = .ok next) : next.Built := by
  unfold Problem.addDenseConstraint at added
  split at added
  · exact built.addConstraint added
  · cases added

theorem Built.foldlM {β : Type} {add : Problem α → β → Except (BuildError α) (Problem α)}
    (step : ∀ {earlier later : Problem α} {item : β},
      earlier.Built → add earlier item = .ok later → later.Built)
    {items : List β} (built : problem.Built) (added : items.foldlM add problem = .ok next) :
    next.Built := by
  induction items generalizing problem with
  | nil =>
      cases added
      exact built
  | cons item rest inductionHypothesis =>
      rw [List.foldlM_cons] at added
      cases first : add problem item with
      | error refusal =>
          rw [first] at added
          cases added
      | ok extended =>
          rw [first] at added
          exact inductionHypothesis (step built first) added

theorem built_of_ofDense {objective : List α} {rows : List (List α × α)}
    (made : ofDense objective rows = .ok problem) : problem.Built := by
  unfold ofDense at made
  cases extended : objective.foldlM (fun problem value => problem.addVariable value none)
      (empty : Problem α) with
  | error refusal =>
      rw [extended] at made
      cases made
  | ok withVariables =>
      rw [extended] at made
      have builtVariables :=
        Built.empty.foldlM (fun built added => built.addVariable added) extended
      exact builtVariables.foldlM (fun built added => built.addDenseConstraint added) made

end Problem

end TwoPhase
