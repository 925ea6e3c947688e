import TwoPhase.Proofs.Tableau.Ties

/-!
# The row that leaves

The leaving rule answers exactly for a column that some row bounds, and then with a row whose ratio
exceeds the smallest by at most one tolerance for each other row that bounds the column.  Where no
two ratios are nearly but not quite equal it is the row of smallest ratio whose variable comes first,
in whatever order the rows stand.
-/

namespace TwoPhase.Tableau

variable {n m : Nat}

section Any

variable {α : Type} [Scalar α] {t : Tableau α n m} {column : Fin (m + 2)}

theorem leaving_eq_none_iff :
    t.leaving column = none ↔ ∀ i, ¬ Scalar.tolerance < t.entry (basicRow i) column := by
  rw [leaving, survivor_eq_none_iff, List.eq_nil_iff_forall_not_mem]
  simp only [mem_boundingRows_iff]

end Any

/-- Whatever near-ties there are, the ratio of the row that leaves is the smallest up to one
tolerance for each duel. -/
theorem ratio_le_add_of_leaving {t : Tableau ℚ n m} {column : Fin (m + 2)} {r i : Fin n}
    (leaves : t.leaving column = some r) (bounds : i ∈ t.boundingRows column) :
    t.ratio column r ≤
      t.ratio column i + ((t.boundingRows column).length - 1 : ℕ) * Scalar.tolerance :=
  survivor_wins_le_add (t.ratio column) t.basic leaves bounds

/-- The row bounds the column with the smallest ratio, and of all rows that do its variable comes
first. -/
structure Blocks (t : Tableau ℚ n m) (column : Fin (m + 2)) (r : Fin n) : Prop where
  bounds : r ∈ t.boundingRows column
  smallest {i : Fin n} : i ∈ t.boundingRows column → t.ratio column r ≤ t.ratio column i
  first {i : Fin n} : i ∈ t.boundingRows column → t.ratio column i = t.ratio column r → i ≠ r →
    (t.basic r).before (t.basic i) = true

section Blocks

variable {t : Tableau ℚ n m} {column : Fin (m + 2)} {r : Fin n}

theorem Blocks.unique {k : Fin n} (blocks : t.Blocks column r) (others : t.Blocks column k) :
    k = r := by
  have sameRatio : t.ratio column k = t.ratio column r :=
    le_antisymm (others.smallest blocks.bounds) (blocks.smallest others.bounds)
  by_contra apart
  have before := blocks.first others.bounds sameRatio apart
  have after := others.first blocks.bounds sameRatio.symm (Ne.symm apart)
  rw [Label.before_asymm before] at after
  cases after

theorem blocks_of_precedes (distinct : Function.Injective t.basic)
    (bounds : r ∈ t.boundingRows column)
    (precedes : ∀ i ∈ t.boundingRows column, Precedes (t.ratio column) t.basic r i) :
    t.Blocks column r where
  bounds := bounds
  smallest member := (precedes _ member).elim le_of_lt fun tie => tie.1.le
  first {i} member sameRatio apart := by
    rcases precedes i member with smaller | ⟨_, notAfter⟩
    · exact absurd sameRatio smaller.ne'
    · by_contra notBefore
      have sameLabel : t.basic r = t.basic i :=
        Label.eq_of_not_before (Bool.not_eq_true _ ▸ notBefore) notAfter
      exact apart (distinct sameLabel.symm)

/-- Where every near-tie is a tie, the rule chooses the row that blocks the column. -/
theorem leaving_eq_some_iff_blocks (distinct : Function.Injective t.basic)
    (decisive : ∀ i ∈ t.boundingRows column, ∀ k ∈ t.boundingRows column,
      Decisive (t.ratio column i - t.ratio column k)) :
    t.leaving column = some r ↔ t.Blocks column r := by
  have blocks {k : Fin n} (leaves : t.leaving column = some k) : t.Blocks column k := by
    apply blocks_of_precedes distinct (mem_boundingRows_of_leaving leaves)
    intro i member
    apply survivor_wins_precedes_of_pairwise _ leaves member
    apply List.pairwise_of_forall_mem_list
    intro holder held newcomer came _
    exact decisive newcomer came holder held
  refine ⟨blocks, ?_⟩
  intro blocksHere
  cases leaves : t.leaving column with
  | none =>
      have nothing := boundingRows_eq_nil_of_leaving leaves
      exact absurd (nothing ▸ blocksHere.bounds) List.not_mem_nil
  | some k => rw [blocksHere.unique (blocks leaves)]

end Blocks

section Reordered

/-- The rows of the basic variables in another order. -/
def reorderRows {α : Type} (t : Tableau α n m) (order : Equiv.Perm (Fin n)) : Tableau α n m where
  entries := Vector.ofFn fun i =>
    if isBasic : i.val < n then t.row (basicRow (order ⟨i.val, isBasic⟩)) else t.row i
  basis := Vector.ofFn fun i => t.basic (order i)
  nonbasis := t.nonbasis

variable {α : Type} (t : Tableau α n m) (order : Equiv.Perm (Fin n)) (i : Fin n)

theorem basic_reorderRows : (t.reorderRows order).basic i = t.basic (order i) :=
  get_ofFn _ i

theorem row_reorderRows :
    (t.reorderRows order).row (basicRow i) = t.row (basicRow (order i)) :=
  (get_ofFn _ _).trans (dif_pos i.isLt)

theorem entry_reorderRows (j : Fin (m + 2)) :
    (t.reorderRows order).entry (basicRow i) j = t.entry (basicRow (order i)) j := by
  rw [entry, row_reorderRows, entry]

variable [Scalar α] (column : Fin (m + 2))

theorem ratio_reorderRows :
    (t.reorderRows order).ratio column i = t.ratio column (order i) := by
  rw [ratio, rhs, entry_reorderRows, entry_reorderRows]
  rfl

theorem mem_boundingRows_reorderRows_iff :
    i ∈ (t.reorderRows order).boundingRows column ↔ order i ∈ t.boundingRows column := by
  rw [mem_boundingRows_iff, mem_boundingRows_iff, entry_reorderRows]

end Reordered

section Independence

variable {t : Tableau ℚ n m} {column : Fin (m + 2)}

theorem Blocks.reorderRows {order : Equiv.Perm (Fin n)} {r : Fin n}
    (blocks : t.Blocks column (order r)) : (t.reorderRows order).Blocks column r where
  bounds := (mem_boundingRows_reorderRows_iff ..).mpr blocks.bounds
  smallest {i} member := by
    rw [mem_boundingRows_reorderRows_iff] at member
    rw [ratio_reorderRows, ratio_reorderRows]
    exact blocks.smallest member
  first {i} member sameRatio apart := by
    rw [mem_boundingRows_reorderRows_iff] at member
    rw [ratio_reorderRows, ratio_reorderRows] at sameRatio
    rw [basic_reorderRows, basic_reorderRows]
    exact blocks.first member sameRatio (order.injective.ne apart)

/-- The rule chooses the same row wherever that stands. -/
theorem leaving_reorderRows (distinct : Function.Injective t.basic)
    (decisive : ∀ i ∈ t.boundingRows column, ∀ k ∈ t.boundingRows column,
      Decisive (t.ratio column i - t.ratio column k))
    (order : Equiv.Perm (Fin n)) :
    ((t.reorderRows order).leaving column).map order = t.leaving column := by
  have distinctReordered : Function.Injective (t.reorderRows order).basic := by
    intro i k same
    rw [basic_reorderRows, basic_reorderRows] at same
    exact order.injective (distinct same)
  have decisiveReordered : ∀ i ∈ (t.reorderRows order).boundingRows column,
      ∀ k ∈ (t.reorderRows order).boundingRows column,
        Decisive ((t.reorderRows order).ratio column i - (t.reorderRows order).ratio column k) := by
    intro i first k second
    rw [mem_boundingRows_reorderRows_iff] at first second
    rw [ratio_reorderRows, ratio_reorderRows]
    exact decisive _ first _ second
  cases leaves : t.leaving column with
  | none =>
      have nothing : (t.reorderRows order).leaving column = none := by
        rw [leaving_eq_none_iff] at leaves ⊢
        intro i
        rw [entry_reorderRows]
        exact leaves (order i)
      rw [nothing, Option.map_none]
  | some r =>
      have blocks := (leaving_eq_some_iff_blocks distinct decisive).mp leaves
      have blocksReordered : (t.reorderRows order).Blocks column (order.symm r) := by
        apply Blocks.reorderRows
        rwa [order.apply_symm_apply]
      rw [(leaving_eq_some_iff_blocks distinctReordered decisiveReordered).mpr blocksReordered,
        Option.map_some, order.apply_symm_apply]

theorem leaving_variable_reorderRows (distinct : Function.Injective t.basic)
    (decisive : ∀ i ∈ t.boundingRows column, ∀ k ∈ t.boundingRows column,
      Decisive (t.ratio column i - t.ratio column k))
    (order : Equiv.Perm (Fin n)) :
    ((t.reorderRows order).leaving column).map (t.reorderRows order).basic =
      (t.leaving column).map t.basic := by
  rw [← leaving_reorderRows distinct decisive order, Option.map_map]
  congr 1
  funext i
  exact basic_reorderRows t order i

end Independence

/-- The leaving rule gives no row exactly if none has an entry above the tolerance.  A row that it
gives has one, and its ratio exceeds the smallest of `k` ratios by at most `k - 1` tolerances.  If
any two of them are equal or at least a tolerance apart, it gives the row whose variable comes first
among the rows of smallest ratio, and the same variable for every order of the rows. -/
theorem leaving_smallest_and_first (t : Tableau ℚ n m) (distinct : Function.Injective t.basic)
    (s : Fin (m + 1)) :
    let column := nonbasicColumn s
    (t.leaving column = none ↔ ∀ i, ¬ Scalar.tolerance < t.entry (basicRow i) column) ∧
      (∀ r, t.leaving column = some r →
        Scalar.tolerance < t.entry (basicRow r) column ∧
          ∀ i ∈ t.boundingRows column,
            t.ratio column r ≤
              t.ratio column i + ((t.boundingRows column).length - 1 : ℕ) * Scalar.tolerance) ∧
      ((∀ i ∈ t.boundingRows column, ∀ k ∈ t.boundingRows column,
          Decisive (t.ratio column i - t.ratio column k)) →
        (∀ r, t.leaving column = some r ↔ t.Blocks column r) ∧
          ∀ order, ((t.reorderRows order).leaving column).map (t.reorderRows order).basic =
            (t.leaving column).map t.basic) := by
  intro column
  refine ⟨leaving_eq_none_iff, ?_, ?_⟩
  · intro r leaves
    have bounds := mem_boundingRows_of_leaving leaves
    exact ⟨mem_boundingRows_iff.mp bounds, fun i => ratio_le_add_of_leaving leaves⟩
  · intro decisive
    exact ⟨fun r => leaving_eq_some_iff_blocks distinct decisive,
      leaving_variable_reorderRows distinct decisive⟩

/-- Two rows of ratio `2`, and one of ratio `5`. -/
def tiedRatios : Tableau ℚ 3 0 where
  entries := #v[#v[2, 4], #v[1, 2], #v[1, 5], #v[0, 0], #v[0, 0]]
  basis := #v[.slack 2, .slack 0, .slack 1]
  nonbasis := #v[.auxiliary]

theorem leaving_tiedRatios_first :
    let column := nonbasicColumn 0
    Function.Injective tiedRatios.basic ∧
      (∀ i ∈ tiedRatios.boundingRows column, ∀ k ∈ tiedRatios.boundingRows column,
        Decisive (tiedRatios.ratio column i - tiedRatios.ratio column k)) ∧
      tiedRatios.leaving column = some 1 ∧ tiedRatios.Blocks column 1 ∧
      ((tiedRatios.reorderRows (Equiv.swap 0 1)).leaving column).map
        (tiedRatios.reorderRows (Equiv.swap 0 1)).basic = some (.slack 0) := by
  intro column
  have distinct : Function.Injective tiedRatios.basic := by decide
  have decisive : ∀ i ∈ tiedRatios.boundingRows column, ∀ k ∈ tiedRatios.boundingRows column,
      Decisive (tiedRatios.ratio column i - tiedRatios.ratio column k) := by decide +kernel
  obtain ⟨_, _, ties⟩ := leaving_smallest_and_first tiedRatios distinct 0
  obtain ⟨exactly, anyOrder⟩ := ties decisive
  have leaves : tiedRatios.leaving column = some 1 := by decide +kernel
  refine ⟨distinct, decisive, leaves, (exactly 1).mp leaves, ?_⟩
  exact (anyOrder (Equiv.swap 0 1)).trans (by rw [leaves]; rfl)

end TwoPhase.Tableau
