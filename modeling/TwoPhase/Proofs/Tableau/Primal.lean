import TwoPhase.Proofs.Tableau.Reach

/-!
# The point of a tableau

The point that a tableau stands for takes each component from the row where its variable is basic,
and has zeros elsewhere.  A tableau that pivots reach always gives one.
-/

namespace TwoPhase.Tableau

variable {α : Type} {n m : Nat}

/-- Put the value of the basic variable of row `i` into a point, if it is a decision variable. -/
def record (t : Tableau α n m) (point : Vector α m) (i : Fin n) : Option (Vector α m) :=
  match t.basic i with
  | .decision j => if known : j < m then some (point.set j (t.rhs (basicRow i))) else none
  | _ => some point

theorem primal?_eq [Scalar α] (t : Tableau α n m) :
    t.primal? = (List.finRange n).foldlM t.record (Vector.replicate m 0) := rfl

section Record

variable {t : Tableau α n m} {rows : List (Fin n)} {start point next : Vector α m} {i : Fin n}

theorem record_cases (result : t.record point i = some next) (j : Fin m) :
    (t.basic i = .decision j ∧ next.get j = t.rhs (basicRow i)) ∨
      (t.basic i ≠ .decision j ∧ next.get j = point.get j) := by
  unfold record at result
  cases isBasic : t.basic i with
  | auxiliary =>
      simp only [isBasic, Option.some.injEq] at result
      exact .inr ⟨by simp, by rw [result]⟩
  | slack row =>
      simp only [isBasic, Option.some.injEq] at result
      exact .inr ⟨by simp, by rw [result]⟩
  | decision k =>
      simp only [isBasic] at result
      split at result
      · rw [Option.some.injEq] at result
        subst result
        by_cases same : k = j
        · exact .inl ⟨by rw [same], by simp [same, get_eq_getElem]⟩
        · refine .inr ⟨by simpa using same, ?_⟩
          simp [get_eq_getElem, Vector.getElem_set_ne _ _ same]
      · cases result

/-- The point has `value` at `j` if it starts with it or some row writes there, and no row writes
anything else there. -/
theorem foldlM_record_eq (result : rows.foldlM t.record start = some point) {j : Fin m} {value : α}
    (agree : ∀ i ∈ rows, t.basic i = .decision j → t.rhs (basicRow i) = value)
    (present : start.get j = value ∨ ∃ i ∈ rows, t.basic i = .decision j) :
    point.get j = value := by
  induction rows generalizing start with
  | nil =>
      simp only [List.foldlM_nil, Option.pure_def, Option.some.injEq] at result
      subst result
      exact present.resolve_right (by simp)
  | cons i rest inductionHypothesis =>
      simp only [List.foldlM_cons, Option.bind_eq_bind, Option.bind_eq_some_iff] at result
      obtain ⟨next, recorded, later⟩ := result
      apply inductionHypothesis later fun k inRest => agree k (List.mem_cons_of_mem i inRest)
      rcases record_cases recorded j with ⟨isBasic, written⟩ | ⟨notBasic, kept⟩
      · exact .inl (written.trans (agree i List.mem_cons_self isBasic))
      · rcases present with starts | ⟨k, member, isBasic⟩
        · exact .inl (kept.trans starts)
        · have inRest := (List.mem_cons.mp member).resolve_left
            fun same => notBasic (same ▸ isBasic)
          exact .inr ⟨k, inRest, isBasic⟩

theorem exists_foldlM_record (start : Vector α m)
    (known : ∀ i j, t.basic i = .decision j → j < m) :
    ∃ point, rows.foldlM t.record start = some point := by
  induction rows generalizing start with
  | nil => exact ⟨start, rfl⟩
  | cons i rest inductionHypothesis =>
      obtain ⟨next, recorded⟩ : ∃ next, t.record start i = some next := by
        unfold record
        cases isBasic : t.basic i with
        | auxiliary => exact ⟨start, rfl⟩
        | slack row => exact ⟨start, rfl⟩
        | decision j => exact ⟨_, dif_pos (known i j isBasic)⟩
      rw [List.foldlM_cons, recorded]
      exact inductionHypothesis next

end Record

section Point

variable [Scalar α] {form : StandardForm α n m} {t : Tableau α n m} {point : Vector α m}
  {j : Fin m}

theorem primal_of_basic (distinct : Function.Injective t.label) (primal : t.primal? = some point)
    {i : Fin n} (isBasic : t.basic i = .decision j) : point.get j = t.rhs (basicRow i) := by
  rw [primal?_eq] at primal
  apply foldlM_record_eq primal _ (.inr ⟨i, List.mem_finRange i, isBasic⟩)
  intro k _ alsoBasic
  have samePlace : t.label (.inl k) = t.label (.inl i) := alsoBasic.trans isBasic.symm
  rw [Sum.inl_injective (distinct samePlace)]

theorem primal_of_not_basic (primal : t.primal? = some point)
    (notBasic : ∀ i, t.basic i ≠ .decision j) : point.get j = 0 := by
  rw [primal?_eq] at primal
  apply foldlM_record_eq primal
  · intro i _ isBasic
    exact absurd isBasic (notBasic i)
  · left
    simp [get_eq_getElem]

theorem Reaches.decision_lt (reached : Reaches (ofStandardForm form) t) {i : Fin n} {k : Nat}
    (isDecision : t.basic i = .decision k) : k < m := by
  have known := mem_unknowns_iff.mp (reached.exists_label_iff.mp ⟨.inl i, isDecision⟩)
  simpa using known

theorem Reaches.exists_primal (reached : Reaches (ofStandardForm form) t) :
    ∃ point, t.primal? = some point := by
  rw [primal?_eq]
  apply exists_foldlM_record
  intro i j isDecision
  exact reached.decision_lt isDecision

end Point

end TwoPhase.Tableau
