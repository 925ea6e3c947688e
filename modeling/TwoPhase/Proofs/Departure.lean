import TwoPhase.Proofs.Tableau.Choice
import TwoPhase.Proofs.Trail

/-!
# The auxiliary variable leaves before phase two

Whatever numbers a solve runs over, the auxiliary variable is nonbasic at every tableau of phase
two.  It is so at the first tableau, driving it out makes it so after phase one, and the entering
rule of phase two passes over its column, wherever that is by then.
-/

namespace TwoPhase.Tableau

variable {α : Type} {n m : Nat}

section DriveOut

theorem auxiliary_not_basic_of_none {t : Tableau α n m} (nowhere : t.auxiliaryBasicRow? = none) :
    ∀ i, t.basic i ≠ .auxiliary := by
  intro i isAuxiliary
  have notFound := List.find?_eq_none.mp nowhere i (List.mem_finRange i)
  exact notFound (decide_eq_true isAuxiliary)

theorem basic_auxiliaryBasicRow {t : Tableau α n m} {r : Fin n}
    (found : t.auxiliaryBasicRow? = some r) : t.basic r = .auxiliary := by
  unfold auxiliaryBasicRow? at found
  have isAuxiliary := List.find?_some found
  exact of_decide_eq_true isAuxiliary

variable [Scalar α]

theorem auxiliary_not_basic_exchange {t : Tableau α n m}
    (distinct : Function.Injective t.label) {r : Fin n} (isAuxiliary : t.basic r = .auxiliary)
    (s : Fin (m + 1)) : ∀ i, (t.exchange r s).basic i ≠ .auxiliary := by
  intro i
  rw [basic_exchange, ← isAuxiliary]
  split
  · intro same
    have place := distinct.eq_iff.mp (show t.label (.inr s) = t.label (.inl r) from same)
    cases place
  · next other =>
      intro same
      have place := distinct.eq_iff.mp (show t.label (.inl i) = t.label (.inl r) from same)
      exact other (Sum.inl_injective place)

theorem auxiliary_not_basic_driveOut {t driven : Tableau α n m}
    (distinct : Function.Injective t.label) (out : t.driveOut.result = .ok driven) :
    ∀ i, driven.basic i ≠ .auxiliary := by
  rcases driveOut_cases out with ⟨nowhere, same⟩ | ⟨r, found, accepted⟩
  · exact same ▸ auxiliary_not_basic_of_none nowhere
  · obtain ⟨_, equality⟩ := pivotAt_eq_ok_iff.mp accepted
    exact equality ▸
      auxiliary_not_basic_exchange distinct (basic_auxiliaryBasicRow found) _

end DriveOut

section PhaseTwo

variable [Scalar α] {remaining : Nat}

theorem auxiliary_not_basic_step {t next : Tableau α n m}
    (out : ∀ i, t.basic i ≠ .auxiliary) (chosen : t.step? .two = some next) :
    ∀ i, next.basic i ≠ .auxiliary := by
  obtain ⟨r, s, choice, accepted⟩ := step?_eq_some_iff.mp chosen
  obtain ⟨_, equality⟩ := pivotAt_eq_ok_iff.mp accepted
  obtain ⟨enters, _⟩ := choose_eq_pivot_iff.mp choice
  have candidate := mem_candidates_iff.mp (mem_candidates_of_entering enters)
  intro i
  rw [equality, basic_exchange]
  split
  · exact candidate.resolve_left (by simp)
  · exact out i

theorem auxiliary_not_basic_of_mem_phaseTrail {t u : Tableau α n m}
    (out : ∀ i, t.basic i ≠ .auxiliary) (member : u ∈ t.phaseTrail .two remaining) :
    ∀ i, u.basic i ≠ .auxiliary := by
  apply phaseTrail_induction (P := fun v => ∀ i, v.basic i ≠ .auxiliary) out _ member
  intro v _ next vOut chosen
  exact auxiliary_not_basic_step vOut chosen

end PhaseTwo

section Solve

variable [Scalar α] {form : StandardForm α n m} {cap : Nat}

theorem reaches_of_restoration {entered u : Tableau α n m}
    (started : (ofStandardForm form).restorationStart? = some entered)
    (member : u ∈ entered.phaseTrail .one cap) : Reaches (ofStandardForm form) u :=
  (reaches_of_restorationStart? started).trans (reaches_of_mem_phaseTrail member)

theorem auxiliary_not_basic_of_restored {feasible : Tableau α n m}
    (restored : (ofStandardForm form).Restores cap (.feasible feasible)) :
    ∀ i, feasible.basic i ≠ .auxiliary := by
  cases restored with
  | skipped high => simp
  | @driven entered _ started verdict small out =>
      apply auxiliary_not_basic_driveOut _ out
      exact (reaches_of_restoration started (runPhase_final_mem entered .one cap)).label_injective

/-- What phase two may rely on at each of its tableaux, whatever its tests are. -/
theorem reaches_of_maximization {feasible u : Tableau α n m}
    (restored : ((ofStandardForm form).restoreFeasibility cap).result = .ok (.feasible feasible))
    (member : u ∈ feasible.phaseTrail .two cap) :
    Reaches (ofStandardForm form) u ∧ ∀ i, u.basic i ≠ .auxiliary := by
  have restores := restores_of_result restored
  constructor
  · exact restores.reaches.trans (reaches_of_mem_phaseTrail member)
  · exact auxiliary_not_basic_of_mem_phaseTrail (auxiliary_not_basic_of_restored restores) member

end Solve

end TwoPhase.Tableau
